import Rocket.Finding.Problem
import Rocket.Text.Quote
import Rocket.Text.Source

/-!
# Scanning

Cutting a text into tokens, from its first character to its last. Gaps and comments
are skipped; a newline is a token of its own, since statements end with their line.

## Implementation notes

A scanner may go back: a string literal is looked for up to the end of its line, and
if its quote does not come again, the scanner returns to the first quote of the other
kind. It never returns to before the literal, so each token uses up some of the text.
-/

namespace Rocket

namespace Token.Kind

/-- The token of a single character. -/
def ofMark (c : Char) : Token.Kind :=
  match c with
  | '(' => .openParen
  | ')' => .closeParen
  | '[' => .openBracket
  | ']' => .closeBracket
  | ',' => .comma
  | ';' => .semicolon
  | c => .stray c

/-- What is wrong with a token of this kind in itself. -/
def problem? : Kind → Option Problem
  | .stray c => some (.strayCharacter c)
  | _ => none

end Token.Kind

/-- A token and the problem with it, if there is one. -/
structure Scanned where
  token : Token
  problem? : Option Problem := none

/-- What is wrong with the token, at its place. -/
def Scanned.remark? (scanned : Scanned) : Option Remark :=
  scanned.problem?.map fun problem => ⟨problem, scanned.token.span⟩

/-- A place in a text. -/
structure Scanner where
  /-- The characters that are still to come. -/
  ahead : List Char
  /-- How many characters are behind. -/
  pos : Nat
  line : Nat
  col : Nat

namespace Scanner

/-- Characters between tokens. -/
def isGap (c : Char) : Bool :=
  c = ' ' ∨ c = '\t' ∨ c = '\r'

def isWordStart (c : Char) : Bool :=
  c.isAlpha ∨ c = '_'

def isWordChar (c : Char) : Bool :=
  c.isAlphanum ∨ c = '_'

/-- Whether a comment starts here. It goes on to the end of its line. -/
def startsComment : List Char → Bool
  | '/' :: '/' :: _ => true
  | _ => false

theorem isGap_iff {c : Char} : isGap c = true ↔ c ∈ [' ', '\t', '\r'] := by
  simp [isGap]

theorem isWordStart_iff {c : Char} : isWordStart c = true ↔ c.isAlpha = true ∨ c = '_' := by
  simp [isWordStart]

theorem isWordChar_iff {c : Char} :
    isWordChar c = true ↔ c.isAlpha = true ∨ c.isDigit = true ∨ c = '_' := by
  simp [isWordChar, Char.isAlphanum, or_assoc]

theorem isWordChar_eq_false_iff {c : Char} :
    isWordChar c = false ↔ c.isAlpha = false ∧ c.isDigit = false ∧ c ≠ '_' := by
  simp [isWordChar, Char.isAlphanum, and_assoc]

theorem startsComment_iff {chars : List Char} :
    startsComment chars = true ↔ ['/', '/'] <+: chars := by
  unfold startsComment
  split
  · simp
  next other =>
    refine iff_of_false Bool.false_ne_true ?_
    rintro ⟨rest, rfl⟩
    exact other rest rfl

/-- The place before a text. -/
def start (text : List Char) : Scanner :=
  ⟨text, 0, 1, 1⟩

/-- The place behind the next character. -/
def advance (place : Scanner) : Scanner :=
  match place.ahead with
  | [] => place
  | c :: rest =>
      if c = '\n' then ⟨rest, place.pos + 1, place.line + 1, 1⟩
      else ⟨rest, place.pos + 1, place.line, place.col + 1⟩

@[simp]
theorem ahead_advance (place : Scanner) : place.advance.ahead = place.ahead.tail := by
  unfold advance
  split
  next empty => simp [empty]
  next more =>
    rw [more]
    split <;> rfl

theorem length_advance_lt {place : Scanner} (h : place.ahead ≠ []) :
    place.advance.ahead.length < place.ahead.length := by
  have some := List.length_pos_iff.2 h
  rw [ahead_advance, List.length_tail]
  omega

/-- The place behind the longest run of characters of a class. -/
def skipWhile (p : Char → Bool) (place : Scanner) : Scanner :=
  if _more : place.ahead.head?.any p then place.advance.skipWhile p else place
termination_by place.ahead.length
decreasing_by
  refine length_advance_lt ?_
  intro empty
  simp [empty] at _more

theorem length_skipWhile_le (p : Char → Bool) (place : Scanner) :
    (place.skipWhile p).ahead.length ≤ place.ahead.length := by
  fun_induction skipWhile p place with
  | case1 place more ih =>
      rw [ahead_advance, List.length_tail] at ih
      omega
  | case2 => exact Nat.le_refl _

theorem length_skipWhile_lt {p : Char → Bool} {place : Scanner}
    (h : place.ahead.head?.any p = true) :
    (place.skipWhile p).ahead.length < place.ahead.length := by
  have nonempty : place.ahead ≠ [] := by
    intro empty
    simp [empty] at h
  rw [skipWhile, dif_pos h]
  exact Nat.lt_of_le_of_lt (length_skipWhile_le p _) (length_advance_lt nonempty)

/-- The place behind a comment that starts here, before the end of its line. -/
def skipComment (place : Scanner) : Scanner :=
  place.skipWhile (· != '\n')

theorem length_skipComment_lt {place : Scanner} (h : startsComment place.ahead = true) :
    place.skipComment.ahead.length < place.ahead.length := by
  refine length_skipWhile_lt ?_
  unfold startsComment at h
  split at h
  next rest slashes => simp [slashes]
  next => cases h

/-- The place behind the gaps and comments that come next. -/
def skipGaps (place : Scanner) : Scanner :=
  if _comment : startsComment (place.skipWhile isGap).ahead then
    (place.skipWhile isGap).skipComment.skipGaps
  else place.skipWhile isGap
termination_by place.ahead.length
decreasing_by
  exact Nat.lt_of_lt_of_le (length_skipComment_lt _comment) (length_skipWhile_le isGap place)

theorem length_skipGaps_le (place : Scanner) :
    place.skipGaps.ahead.length ≤ place.ahead.length := by
  fun_induction skipGaps place with
  | case1 place comment ih =>
      have gaps := length_skipWhile_le isGap place
      have rest := length_skipComment_lt comment
      omega
  | case2 place => exact length_skipWhile_le isGap place

/-- The characters from here to a later place. -/
def textTo (place stop : Scanner) : String :=
  String.ofList (place.ahead.take (stop.pos - place.pos))

/-- What lies between this place and a later one on the same line. -/
def spanTo (place stop : Scanner) : Span :=
  ⟨place.line, place.col, max (stop.col - 1) place.col⟩

/-- The token from here to a later place. -/
def token (place : Scanner) (kind : Token.Kind) (stop : Scanner) : Token :=
  ⟨kind, place.spanTo stop⟩

/-- The string literal opened at `opening`, whose text starts at `inner`, when its line
ends at `place` and its own quote did not come again. It ends at the first quote of the
other kind, if there was one. -/
def endQuoted (opening inner place : Scanner) : (other? : Option Scanner) → Scanned × Scanner
  | some other =>
      (⟨opening.token (.quoted (inner.textTo other)) other.advance, none⟩, other.advance)
  | none =>
      (⟨opening.token (.quoted (inner.textTo place)) place, some .unterminatedString⟩, place)

/-- Follow the string literal that `quote` opens at `opening` to the next quote of its
kind. `other?` is the first quote of the other kind on the way to `place`. -/
def scanQuoted (quote : Char) (opening inner : Scanner) (other? : Option Scanner)
    (place : Scanner) : Scanned × Scanner :=
  if _lineEnd : place.ahead.head?.all (· = '\n') then endQuoted opening inner place other?
  else if place.ahead.head? = some quote then
    (⟨opening.token (.quoted (inner.textTo place)) place.advance, none⟩, place.advance)
  else
    let other? := if other?.isNone ∧ place.ahead.head?.any Text.isQuote then some place else other?
    scanQuoted quote opening inner other? place.advance
termination_by place.ahead.length
decreasing_by
  refine length_advance_lt ?_
  intro empty
  simp [empty] at _lineEnd

/-- Following a string literal ends no farther from the end of the text than where it
started. -/
theorem length_scanQuoted_le (quote : Char) (opening inner : Scanner)
    {other? : Option Scanner} {place : Scanner} {n : Nat} (here : place.ahead.length ≤ n)
    (seen : ∀ other ∈ other?, other.ahead.length ≤ n) :
    (scanQuoted quote opening inner other? place).2.ahead.length ≤ n := by
  have advanced : ∀ place : Scanner, place.ahead.length ≤ n → place.advance.ahead.length ≤ n := by
    intro place bound
    rw [ahead_advance, List.length_tail]
    omega
  fun_induction scanQuoted quote opening inner other? place with
  | case1 other? place ended =>
      cases other? with
      | none => exact here
      | some other => exact advanced other (seen other rfl)
  | case2 other? place inside closes => exact advanced place here
  | case3 other? place inside differs other?' ih =>
      refine ih (advanced place here) ?_
      intro other member
      dsimp only [other?'] at member
      split at member
      · obtain rfl := Option.mem_some_iff.1 member
        exact here
      · exact seen other member

/-- The token that starts here with the character `c`, and the place behind it. -/
def scanFrom (place : Scanner) (c : Char) : Scanned × Scanner :=
  let next := place.advance
  if c = '\n' then (⟨⟨.newline, .point place.line place.col⟩, none⟩, next)
  else if Text.isQuote c then scanQuoted c place next none next
  else if c.isDigit then
    let stop := next.skipWhile Char.isDigit
    (⟨place.token (.digits (place.textTo stop)) stop, none⟩, stop)
  else if isWordStart c then
    let stop := next.skipWhile isWordChar
    (⟨place.token (.ofWord (place.textTo stop)) stop, none⟩, stop)
  else (⟨place.token (.ofMark c) next, (Token.Kind.ofMark c).problem?⟩, next)

theorem length_scanFrom_le (place : Scanner) (c : Char) :
    (place.scanFrom c).2.ahead.length ≤ place.advance.ahead.length := by
  unfold scanFrom
  dsimp only
  split
  · exact Nat.le_refl _
  · split
    · exact length_scanQuoted_le c place place.advance (Nat.le_refl _) nofun
    · split
      · exact length_skipWhile_le _ _
      · split
        · exact length_skipWhile_le _ _
        · exact Nat.le_refl _

/-- The next token and the place behind it. -/
def scanToken (before : Scanner) : Scanned × Scanner :=
  let place := before.skipGaps
  match place.ahead with
  | [] => (⟨⟨.endOfInput, .point place.line place.col⟩, none⟩, place)
  | c :: _ => place.scanFrom c

/-- A token other than the end of input takes at least one character. -/
theorem length_scanToken_lt {place after : Scanner} {scanned : Scanned}
    (h : place.scanToken = (scanned, after)) (more : scanned.token.kind ≠ .endOfInput) :
    after.ahead.length < place.ahead.length := by
  dsimp only [scanToken] at h
  split at h
  next =>
    cases h
    exact absurd rfl more
  next c rest ahead =>
    have nonempty : place.skipGaps.ahead ≠ [] := ahead ▸ List.cons_ne_nil c rest
    calc after.ahead.length
        = (place.skipGaps.scanFrom c).2.ahead.length := by rw [h]
      _ ≤ place.skipGaps.advance.ahead.length := length_scanFrom_le _ c
      _ < place.skipGaps.ahead.length := length_advance_lt nonempty
      _ ≤ place.ahead.length := length_skipGaps_le place

/-- The tokens from here to the end of the text. -/
def scanAll (place : Scanner) : List Scanned :=
  match _h : place.scanToken with
  | (scanned, after) =>
      if _last : scanned.token.kind = .endOfInput then [scanned] else scanned :: after.scanAll
termination_by place.ahead.length
decreasing_by exact length_scanToken_lt _h _last

end Scanner

namespace Source

/-- All tokens of the source, with their problems. -/
def scan (source : Source) : List Scanned :=
  (Scanner.start source.text.toList).scanAll

/-- All tokens of the source, the end of input last. -/
def tokens (source : Source) : List Token :=
  source.scan.map (·.token)

/-- What is wrong with the tokens of the source. -/
def scanRemarks (source : Source) : List Remark :=
  source.scan.filterMap Scanned.remark?

end Source

end Rocket

import Rocket.Token.Scan

/-!
# Scanning a line

The tokens of a line as a function of its characters, where they come from, and which
problems they can have: a stray character, or a string literal that takes the rest of
its line. Every other token is regular.

## Implementation notes

On a line, a token takes its first character and some number of characters after it,
so the tokens of a line are given by a structural recursion with a count of characters
that are already spoken for.
-/

namespace Rocket

/-- The token found at the first of some characters. -/
structure Lexeme where
  kind : Token.Kind
  /-- How many characters after the first belong to the token. -/
  more : Nat
  problem? : Option Problem := none

namespace Lexeme

open Scanner (isWordStart isWordChar)

/-- The string literal that `quote` opens, given the rest of its line. It ends at
the next quote of the same kind; if the line has none, at the first quote of the
other kind; if it has neither, it takes the whole line and is a problem. -/
def ofQuote (quote : Char) (rest : List Char) : Lexeme :=
  if quote ∈ rest then
    let content := rest.takeWhile (· != quote)
    ⟨.quoted (String.ofList content), content.length + 1, none⟩
  else
    let content := rest.takeWhile (!Text.isQuote ·)
    if content.length < rest.length then
      ⟨.quoted (String.ofList content), content.length + 1, none⟩
    else
      ⟨.quoted (String.ofList rest), rest.length, some .unterminatedString⟩

/-- The longest run of digits. -/
def ofDigit (c : Char) (rest : List Char) : Lexeme :=
  let run := rest.takeWhile Char.isDigit
  ⟨.digits (String.ofList (c :: run)), run.length, none⟩

/-- The longest word. -/
def ofWordStart (c : Char) (rest : List Char) : Lexeme :=
  let run := rest.takeWhile isWordChar
  ⟨.ofWord (String.ofList (c :: run)), run.length, none⟩

/-- The token of a single character. -/
def ofMark (c : Char) : Lexeme :=
  ⟨.ofMark c, 0, (Token.Kind.ofMark c).problem?⟩

/-- The token that starts with `c` when `rest` is what follows on the line. -/
def start (c : Char) (rest : List Char) : Lexeme :=
  if Text.isQuote c then ofQuote c rest
  else if c.isDigit then ofDigit c rest
  else if isWordStart c then ofWordStart c rest
  else ofMark c

theorem length_takeWhile_le {p : Char → Bool} (cs : List Char) :
    (cs.takeWhile p).length ≤ cs.length :=
  (List.takeWhile_sublist p).length_le

/-- A string that ends at a quote of either kind is shorter than the line. -/
theorem more_ofQuote_le (quote : Char) (rest : List Char) :
    (ofQuote quote rest).more ≤ rest.length := by
  unfold ofQuote
  split
  next closed =>
    have bound : (rest.takeWhile (· != quote)).length ≠ rest.length := by
      intro same
      have whole := (List.takeWhile_sublist (· != quote)).eq_of_length same
      have differs := List.all_takeWhile (p := (· != quote)) (l := rest)
      rw [whole] at differs
      simpa using List.all_eq_true.1 differs quote closed
    have := length_takeWhile_le (p := (· != quote)) rest
    dsimp only
    omega
  next =>
    dsimp only
    split
    next shorter => exact Nat.succ_le_of_lt shorter
    next => exact Nat.le_refl _

/-- A token lies on the rest of its line. -/
theorem more_start_le (c : Char) (rest : List Char) : (start c rest).more ≤ rest.length := by
  unfold start
  split
  · exact more_ofQuote_le c rest
  · split
    · exact length_takeWhile_le rest
    · split
      · exact length_takeWhile_le rest
      · exact Nat.zero_le _

end Lexeme

namespace Scanned

open Scanner (isGap startsComment)

/-- The tokens of the rest of a line from column `col` on, of which the next
`skip` characters belong to the token before. -/
def ofChars (line : Nat) : (col skip : Nat) → List Char → List Scanned
  | _, _, [] => []
  | col, skip + 1, _ :: rest => ofChars line (col + 1) skip rest
  | col, 0, c :: rest =>
      if isGap c then ofChars line (col + 1) 0 rest
      else if startsComment (c :: rest) then []
      else
        let found := Lexeme.start c rest
        ⟨⟨found.kind, ⟨line, col, col + found.more⟩⟩, found.problem?⟩
          :: ofChars line (col + 1) found.more rest

/-- Characters that are spoken for only move the column. -/
theorem ofChars_skip (line col skip : Nat) (cs : List Char) :
    ofChars line col skip cs = ofChars line (col + skip) 0 (cs.drop skip) := by
  induction cs generalizing col skip with
  | nil => simp [ofChars]
  | cons c rest ih =>
      cases skip with
      | zero => rfl
      | succ skip =>
          rw [ofChars, ih, List.drop_succ_cons]
          congr 1
          omega

/-- The tokens of a line, without the one that ends it. -/
def ofLine (line : Nat) (chars : List Char) : List Scanned :=
  ofChars line 1 0 chars

/-- The token that ends a line, one column behind its last character. -/
def lineEnd (kind : Token.Kind) (line : Nat) (chars : List Char) : Scanned :=
  ⟨⟨kind, .point line (chars.length + 1)⟩, none⟩

/-- The tokens of consecutive lines, the first of number `line`. -/
def ofLines (line : Nat) : List (List Char) → List Scanned
  | [] => []
  | [chars] => ofLine line chars ++ [lineEnd .endOfInput line chars]
  | chars :: rest => ofLine line chars ++ lineEnd .newline line chars :: ofLines (line + 1) rest

/-- A line that another one follows ends with a newline. -/
theorem ofLines_cons_cons (line : Nat) (chars next : List Char) (rest : List (List Char)) :
    ofLines line (chars :: next :: rest) =
      ofLine line chars ++ lineEnd .newline line chars :: ofLines (line + 1) (next :: rest) := rfl

end Scanned

/-! ## Where tokens come from -/

/-- Kinds that a scan gives to tokens without a problem: no stray character, and
digits only in a nonempty run. -/
def Token.Kind.IsRegular : Token.Kind → Prop
  | .stray _ => False
  | .digits text => text.toList ≠ [] ∧ ∀ c ∈ text.toList, c.isDigit = true
  | _ => True

namespace Token.Kind

theorem isStray_of_isRegular {kind : Kind} (h : kind.IsRegular) : kind.isStray = false := by
  cases kind <;> first | rfl | exact h.elim

theorem isRegular_ofWord (word : String) : (ofWord word).IsRegular := by
  unfold ofWord ofReserved?
  split
  · exact trivial
  · cases Primitive.all.find? fun p => p.name = word <;> exact trivial

theorem isLineEnd_ofWord (word : String) : (ofWord word).isLineEnd = false := by
  unfold ofWord ofReserved?
  split
  · rfl
  · cases Primitive.all.find? fun p => p.name = word <;> rfl

end Token.Kind

namespace Lexeme

/-- What can be said of a lexeme in front of the rest of its line: it is regular and
no problem, or a stray character, or a string literal that takes the rest. -/
inductive IsSound (rest : List Char) : Lexeme → Prop
  | regular {kind more} (regular : kind.IsRegular) (inner : kind.isLineEnd = false) :
      IsSound rest ⟨kind, more, none⟩
  | stray (c : Char) : IsSound rest ⟨.stray c, 0, some (.strayCharacter c)⟩
  | unterminated (text : String) :
      IsSound rest ⟨.quoted text, rest.length, some .unterminatedString⟩

theorem isSound_start (c : Char) (rest : List Char) : IsSound rest (start c rest) := by
  unfold start
  split
  · unfold ofQuote
    split
    · exact .regular trivial rfl
    · dsimp only
      split
      · exact .regular trivial rfl
      · exact .unterminated _
  · split
    next digit =>
      refine .regular ⟨by simp, fun d member => ?_⟩ rfl
      rw [String.toList_ofList] at member
      obtain rfl | inRun := List.mem_cons.1 member
      · exact digit
      · exact List.all_eq_true.1 List.all_takeWhile d inRun
    next =>
      split
      · exact .regular (Token.Kind.isRegular_ofWord _) (Token.Kind.isLineEnd_ofWord _)
      · unfold ofMark Token.Kind.ofMark
        split <;> first | exact .stray _ | exact .regular trivial rfl

theorem IsSound.isLineEnd {rest : List Char} {lexeme : Lexeme} (h : IsSound rest lexeme) :
    lexeme.kind.isLineEnd = false := by
  cases h with
  | regular _ inner => exact inner
  | stray c => rfl
  | unterminated text => rfl

end Lexeme

namespace Scanned

open Scanner (isGap startsComment)

variable {line col skip : Nat} {chars : List Char} {scanned : Scanned}

/-- Every token starts at a character that neither a gap nor a comment hides, and is
the lexeme found there. -/
theorem exists_start_of_mem (h : scanned ∈ ofChars line col skip chars) :
    ∃ i c rest, chars.drop i = c :: rest ∧ isGap c = false ∧
      startsComment (c :: rest) = false ∧
      scanned = ⟨⟨(Lexeme.start c rest).kind,
        ⟨line, col + i, col + i + (Lexeme.start c rest).more⟩⟩,
        (Lexeme.start c rest).problem?⟩ := by
  fun_induction ofChars line col skip chars with
  | case1 => simp at h
  | case2 col skip c chars ih =>
      obtain ⟨i, d, rest, drop, gap, comment, rfl⟩ := ih h
      exact ⟨i + 1, d, rest, drop, gap, comment, by simp [Nat.add_assoc, Nat.add_comm 1]⟩
  | case3 col c chars _ ih =>
      obtain ⟨i, d, rest, drop, gap, comment, rfl⟩ := ih h
      exact ⟨i + 1, d, rest, drop, gap, comment, by simp [Nat.add_assoc, Nat.add_comm 1]⟩
  | case4 => simp at h
  | case5 col c chars gap comment found ih =>
      obtain rfl | later := List.mem_cons.1 h
      · exact ⟨0, c, chars, rfl, by simpa using gap, by simpa using comment, rfl⟩
      · obtain ⟨i, d, rest, drop, gap, comment, rfl⟩ := ih later
        exact ⟨i + 1, d, rest, drop, gap, comment, by simp [Nat.add_assoc, Nat.add_comm 1]⟩

theorem line_of_mem (h : scanned ∈ ofChars line col skip chars) :
    scanned.token.span.line = line := by
  obtain ⟨i, c, rest, -, -, -, rfl⟩ := exists_start_of_mem h
  rfl

theorem isSound_of_mem {token : Token} {problem? : Option Problem}
    (h : ⟨token, problem?⟩ ∈ ofChars line col skip chars) :
    ∃ rest more, Lexeme.IsSound rest ⟨token.kind, more, problem?⟩ := by
  obtain ⟨i, c, rest, -, -, -, same⟩ := exists_start_of_mem h
  obtain ⟨rfl, rfl⟩ := Scanned.mk.inj same
  exact ⟨rest, _, Lexeme.isSound_start c rest⟩

/-- The tokens inside a line do not end it. -/
theorem isLineEnd_of_mem (h : scanned ∈ ofChars line col skip chars) :
    scanned.token.kind.isLineEnd = false := by
  obtain ⟨⟨kind, span⟩, problem?⟩ := scanned
  obtain ⟨rest, more, sound⟩ := isSound_of_mem h
  exact sound.isLineEnd

/-- A token that is no stray character is regular. -/
theorem isRegular_of_mem (h : scanned ∈ ofChars line col skip chars)
    (clear : scanned.token.kind.isStray = false) : scanned.token.kind.IsRegular := by
  obtain ⟨⟨kind, span⟩, problem?⟩ := scanned
  obtain ⟨rest, more, sound⟩ := isSound_of_mem h
  cases sound with
  | regular regular _ => exact regular
  | stray c => simp [Token.Kind.isStray] at clear
  | unterminated text => trivial

/-- A token without a problem is no stray character. -/
theorem isStray_of_mem (h : scanned ∈ ofChars line col skip chars)
    (clean : scanned.problem? = none) : scanned.token.kind.isStray = false := by
  obtain ⟨⟨kind, span⟩, problem?⟩ := scanned
  obtain rfl := clean
  obtain ⟨rest, more, sound⟩ := isSound_of_mem h
  cases sound with
  | regular regular _ => exact Token.Kind.isStray_of_isRegular regular

/-- A token with a problem is a stray character, or a string literal that is the last
token of its line. -/
theorem isStray_or_last_of_mem (h : scanned ∈ ofChars line col skip chars)
    (problem : scanned.problem? ≠ none) :
    scanned.token.kind.isStray = true ∨
      ∃ text front, scanned.token.kind = .quoted text ∧
        ofChars line col skip chars = front ++ [scanned] := by
  fun_induction ofChars line col skip chars with
  | case1 => simp at h
  | case2 col skip c chars ih => exact ih h
  | case3 col c chars _ ih => exact ih h
  | case4 => simp at h
  | case5 col c chars gap comment found ih =>
      obtain rfl | later := List.mem_cons.1 h
      · dsimp only [found] at problem ⊢
        have sound := Lexeme.isSound_start c chars
        generalize Lexeme.start c chars = lexeme at problem sound ⊢
        cases sound with
        | regular _ _ => exact absurd rfl problem
        | stray d => exact .inl rfl
        | unterminated text =>
            refine .inr ⟨text, [], rfl, ?_⟩
            rw [ofChars_skip, List.drop_length]
            rfl
      · obtain stray | ⟨text, front, kind, split⟩ := ih later
        · exact .inl stray
        · exact .inr ⟨text, _ :: front, kind, by rw [split, List.cons_append]⟩

variable {n : Nat} {lines : List (List Char)}

/-- A token of consecutive lines is inside one of them or ends it. -/
theorem exists_of_mem_ofLines (h : scanned ∈ ofLines n lines) :
    ∃ i chars, lines[i]? = some chars ∧ (scanned ∈ ofLine (n + i) chars ∨
      ∃ ending, ending.isLineEnd = true ∧ scanned = lineEnd ending (n + i) chars) := by
  fun_induction ofLines n lines with
  | case1 => simp at h
  | case2 n chars =>
      refine ⟨0, chars, rfl, ?_⟩
      obtain inside | last := List.mem_append.1 h
      · exact .inl inside
      · exact .inr ⟨.endOfInput, rfl, List.mem_singleton.1 last⟩
  | case3 n chars rest more ih =>
      obtain inside | other := List.mem_append.1 h
      · exact ⟨0, chars, rfl, .inl inside⟩
      · obtain rfl | later := List.mem_cons.1 other
        · exact ⟨0, chars, rfl, .inr ⟨.newline, rfl, rfl⟩⟩
        · obtain ⟨i, found, there, place⟩ := ih later
          refine ⟨i + 1, found, there, ?_⟩
          rwa [Nat.add_assoc, Nat.add_comm 1] at place

theorem mem_ofLines_of_mem {i : Nat} (there : lines[i]? = some chars)
    (h : scanned ∈ ofLine (n + i) chars) : scanned ∈ ofLines n lines := by
  fun_induction ofLines n lines generalizing i with
  | case1 => simp at there
  | case2 n found =>
      cases i with
      | zero =>
          obtain rfl := Option.some.inj there
          exact List.mem_append_left _ h
      | succ i => simp at there
  | case3 n found rest more ih =>
      cases i with
      | zero =>
          obtain rfl := Option.some.inj there
          exact List.mem_append_left _ h
      | succ i =>
          refine List.mem_append_right _ (List.mem_cons_of_mem _ (ih there ?_))
          rwa [Nat.add_assoc, Nat.add_comm 1]

end Scanned

end Rocket

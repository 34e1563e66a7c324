import Mathlib
import Rocket.Proofs.Token.Lexeme

/-!
# Laid-out tokens

A line can be written from the kinds of its tokens: the text of each, and behind
it a run of gap characters, possibly an empty one. Scanning such a line gives
back its kinds, at the columns where they were written.

## Implementation notes

A gap may be empty only where the next text does not continue the token before.
This is a condition on the next character alone, so a layout is checked from its
end to its start.
-/

namespace Rocket

namespace Token.Kind

/-- Whether some characters make up a word: a letter or underscore, and letters, digits and
underscores behind it. -/
def IsWord (chars : List Char) : Prop :=
  ∃ c run, chars = c :: run ∧ (c.isAlpha = true ∨ c = '_') ∧
    ∀ d ∈ run, d.isAlpha = true ∨ d.isDigit = true ∨ d = '_'

/-- Kinds whose text, scanned on its own, is a token of that kind. -/
def IsSpelled : Kind → Prop
  | .word name => ofReserved? name = none ∧ IsWord name.toList
  | .digits text => text.toList ≠ [] ∧ ∀ d ∈ text.toList, d.isDigit = true
  | .quoted text => '"' ∉ text.toList
  | .stray _ | .newline | .endOfInput => False
  | _ => True

/-- The scanner's classes of characters make up words. -/
theorem isWord_of_all {chars : List Char} (c : Char) (run : List Char) (text : chars = c :: run)
    (first : Scanner.isWordStart c = true) (others : run.all Scanner.isWordChar = true) :
    IsWord chars := by
  refine ⟨c, run, text, Scanner.isWordStart_iff.1 first, fun d member => ?_⟩
  exact Scanner.isWordChar_iff.1 (List.all_eq_true.1 others d member)

theorem isSpelled_digits {digits : List Char} (nonempty : digits ≠ [])
    (all : ∀ d ∈ digits, d.isDigit = true) : IsSpelled (.digits (String.ofList digits)) := by
  have text := String.toList_ofList (l := digits)
  exact ⟨by rwa [text], by rwa [text]⟩

/-- Whether a token of the kind ends where `rest` begins: a word is not followed by a letter,
digit or underscore, and a number not by a digit. -/
def EndsBefore (kind : Kind) (rest : List Char) : Prop :=
  match kind with
  | .primitive _ | .loop | .word _ =>
      ∀ c ∈ rest.head?, c.isAlpha = false ∧ c.isDigit = false ∧ c ≠ '_'
  | .digits _ => ∀ c ∈ rest.head?, c.isDigit = false
  | _ => True

end Token.Kind

namespace Lexeme

open Scanner (isGap isWordStart isWordChar)

/-- A run of `p` characters that ends where `rest` begins is a longest one. -/
theorem takeWhile_run {p : Char → Bool} {run rest : List Char}
    (all : ∀ d ∈ run, p d = true) (ends : ∀ c ∈ rest.head?, p c = false) :
    (run ++ rest).takeWhile p = run := by
  rw [List.takeWhile_append_of_pos all]
  cases rest with
  | nil => simp
  | cons c rest => simp [ends c rfl]

theorem isQuote_of_isDigit {c : Char} (h : c.isDigit = true) : Text.isQuote c = false := by
  have differs : c ≠ '"' ∧ c ≠ '\'' := by
    constructor <;> rintro rfl <;> simp_all
  simp [Text.isQuote, differs]

theorem isDigit_of_isWordStart {c : Char} (h : isWordStart c = true) : c.isDigit = false := by
  cases digit : c.isDigit with
  | false => rfl
  | true =>
      have range := Char.isDigit_iff_toNat.1 digit
      simp only [isWordStart, Char.isAlpha, Char.isUpper, Char.isLower, Bool.or_eq_true,
        decide_eq_true_eq, Bool.and_eq_true, ge_iff_le, UInt32.le_iff_toNat_le,
        Char.toNat_val] at h
      rcases h with (h | h) | rfl
      · have := Nat.le_trans h.1 range.2
        simp at this
      · have := Nat.le_trans h.1 range.2
        simp at this
      · simp at digit

theorem isQuote_of_isWordStart {c : Char} (h : isWordStart c = true) :
    Text.isQuote c = false := by
  have differs : c ≠ '"' ∧ c ≠ '\'' := by
    constructor <;> rintro rfl <;> simp [isWordStart] at h
  simp [Text.isQuote, differs]

theorem isGap_of_isWordStart {c : Char} (h : isWordStart c = true) :
    isGap c = false ∧ c ≠ '/' := by
  have differs : c ≠ ' ' ∧ c ≠ '\t' ∧ c ≠ '\r' ∧ c ≠ '/' := by
    refine ⟨?_, ?_, ?_, ?_⟩ <;> rintro rfl <;> simp [isWordStart] at h
  simp [isGap, differs]

theorem isGap_of_isDigit {c : Char} (h : c.isDigit = true) : isGap c = false ∧ c ≠ '/' := by
  have differs : c ≠ ' ' ∧ c ≠ '\t' ∧ c ≠ '\r' ∧ c ≠ '/' := by
    refine ⟨?_, ?_, ?_, ?_⟩ <;> rintro rfl <;> simp at h
  simp [isGap, differs]

/-- A word is scanned to the kind it stands for. -/
theorem start_word {c : Char} {run rest : List Char} (first : isWordStart c = true)
    (all : ∀ d ∈ run, isWordChar d = true) (ends : ∀ d ∈ rest.head?, isWordChar d = false) :
    start c (run ++ rest) = ⟨.ofWord (String.ofList (c :: run)), run.length, none⟩ := by
  simp [start, isQuote_of_isWordStart first, isDigit_of_isWordStart first, first, ofWordStart,
    takeWhile_run all ends]

theorem start_digits {c : Char} {run rest : List Char} (first : c.isDigit = true)
    (all : ∀ d ∈ run, d.isDigit = true) (ends : ∀ d ∈ rest.head?, d.isDigit = false) :
    start c (run ++ rest) = ⟨.digits (String.ofList (c :: run)), run.length, none⟩ := by
  simp [start, isQuote_of_isDigit first, first, ofDigit, takeWhile_run all ends]

/-- A string literal without a double quote ends at the next one. -/
theorem start_quoted {content rest : List Char} (free : '"' ∉ content) :
    start '"' (content ++ '"' :: rest) =
      ⟨.quoted (String.ofList content), content.length + 1, none⟩ := by
  have run : (content ++ '"' :: rest).takeWhile (· != '"') = content := by
    apply takeWhile_run
    · intro d hd
      simpa using ne_of_mem_of_not_mem hd free
    · simp
  simp [start, Text.isQuote, ofQuote, run]

end Lexeme

namespace Token.Kind

/-- The name of an action is a word. -/
theorem isWord_name (p : Primitive) : IsWord p.name.toList := by
  match p with
  | .move => exact isWord_of_all 'm' "ove".toList (by decide) (by decide) (by decide)
  | .turn .right => exact isWord_of_all 't' "urnRight".toList (by decide) (by decide) (by decide)
  | .turn .left => exact isWord_of_all 't' "urnLeft".toList (by decide) (by decide) (by decide)

/-- What scanning the text of a kind in front of `rest` comes to: one token, which
neither a gap nor a comment hides. -/
def IsScanned (kind : Kind) (rest : List Char) : Prop :=
  ∃ c run, kind.text.toList = c :: run ∧ Scanner.isGap c = false ∧ c ≠ '/' ∧
    Lexeme.start c (run ++ rest) = ⟨kind, run.length, none⟩

theorem isScanned_of_word {kind : Kind} {rest : List Char} (same : ofWord kind.text = kind)
    (word : IsWord kind.text.toList)
    (ends : ∀ c ∈ rest.head?, c.isAlpha = false ∧ c.isDigit = false ∧ c ≠ '_') :
    kind.IsScanned rest := by
  obtain ⟨c, run, text, first, others⟩ := word
  have start := Scanner.isWordStart_iff.2 first
  have all : ∀ d ∈ run, Scanner.isWordChar d = true :=
    fun d member => Scanner.isWordChar_iff.2 (others d member)
  have stops : ∀ c ∈ rest.head?, Scanner.isWordChar c = false :=
    fun c next => Scanner.isWordChar_eq_false_iff.2 (ends c next)
  obtain ⟨gap, slash⟩ := Lexeme.isGap_of_isWordStart start
  refine ⟨c, run, text, gap, slash, ?_⟩
  rw [Lexeme.start_word start all stops, ← text, String.ofList_toList, same]

theorem isScanned_of_digits {text : String} {rest : List Char} (nonempty : text.toList ≠ [])
    (all : ∀ d ∈ text.toList, d.isDigit = true) (ends : ∀ c ∈ rest.head?, c.isDigit = false) :
    (digits text).IsScanned rest := by
  obtain ⟨c, run, split⟩ := List.exists_cons_of_ne_nil nonempty
  rw [split, List.forall_mem_cons] at all
  obtain ⟨gap, slash⟩ := Lexeme.isGap_of_isDigit all.1
  refine ⟨c, run, split, gap, slash, ?_⟩
  rw [Lexeme.start_digits all.1 all.2 ends, ← split, String.ofList_toList]

theorem isScanned_of_quoted {text : String} (free : '"' ∉ text.toList) (rest : List Char) :
    (quoted text).IsScanned rest := by
  refine ⟨'"', text.toList ++ ['"'], by simp [Kind.text], by decide, by decide, ?_⟩
  rw [List.append_assoc, List.singleton_append, Lexeme.start_quoted free,
    String.ofList_toList, List.length_append, List.length_singleton]

/-- The text of a kind is scanned to that kind if what follows does not continue it. -/
theorem isScanned_text {kind : Kind} {rest : List Char} (spelled : kind.IsSpelled)
    (ends : kind.EndsBefore rest) : kind.IsScanned rest := by
  cases kind with
  | primitive p => exact isScanned_of_word (by simp [ofWord, text]) (isWord_name p) ends
  | loop =>
      exact isScanned_of_word (by simp [ofWord, text])
        (isWord_of_all 'r' "epeat".toList (by decide) (by decide) (by decide)) ends
  | word name => exact isScanned_of_word (by simp [ofWord, text, spelled.1]) spelled.2 ends
  | digits text => exact isScanned_of_digits spelled.1 spelled.2 ends
  | quoted text => exact isScanned_of_quoted spelled rest
  | openParen => exact ⟨'(', [], by decide, by decide, by decide, rfl⟩
  | closeParen => exact ⟨')', [], by decide, by decide, by decide, rfl⟩
  | openBracket => exact ⟨'[', [], by decide, by decide, by decide, rfl⟩
  | closeBracket => exact ⟨']', [], by decide, by decide, by decide, rfl⟩
  | comma => exact ⟨',', [], by decide, by decide, by decide, rfl⟩
  | semicolon => exact ⟨';', [], by decide, by decide, by decide, rfl⟩
  | stray c => exact spelled.elim
  | newline => exact spelled.elim
  | endOfInput => exact spelled.elim

end Token.Kind

/-- Kinds in the order of their tokens, each with the gap behind it. -/
abbrev Layout := List (Token.Kind × List Char)

namespace Layout

/-- The characters of a layout. -/
def chars (layout : Layout) : List Char :=
  layout.flatMap fun (kind, gap) => kind.text.toList ++ gap

/-- The kinds of a layout. -/
def kinds (layout : Layout) : List Token.Kind :=
  layout.map (·.1)

/-- The tokens of a layout that starts at column `col` of a line. -/
def tokens (line : Nat) : (col : Nat) → Layout → List Token
  | _, [] => []
  | col, (kind, gap) :: rest =>
      ⟨kind, ⟨line, col, col + kind.text.length - 1⟩⟩
        :: tokens line (col + kind.text.length + gap.length) rest

/-- Whether each kind has a text of its own, stands clear of what follows it, and
has nothing but gap characters in the gap behind it. -/
def IsReadable : Layout → Prop
  | [] => True
  | (kind, gap) :: rest =>
      (kind.IsSpelled ∧ kind.EndsBefore (gap ++ chars rest)) ∧
        (∀ c ∈ gap, Scanner.isGap c = true) ∧ IsReadable rest

@[simp]
theorem chars_nil : chars [] = [] := rfl

@[simp]
theorem chars_cons (kind : Token.Kind) (gap : List Char) (rest : Layout) :
    chars ((kind, gap) :: rest) = kind.text.toList ++ (gap ++ chars rest) := by
  simp [chars]

@[simp]
theorem chars_append (front back : Layout) :
    chars (front ++ back) = chars front ++ chars back := by
  simp [chars]

/-- The kinds of the tokens are those laid out. -/
theorem kinds_tokens (line col : Nat) (layout : Layout) :
    (tokens line col layout).map (·.kind) = layout.kinds := by
  induction layout generalizing col with
  | nil => rfl
  | cons piece rest ih => simpa [tokens, kinds] using ih _

theorem tokens_append (line col : Nat) (front back : Layout) :
    tokens line col (front ++ back) =
      tokens line col front ++ tokens line (col + front.chars.length) back := by
  induction front generalizing col with
  | nil => simp [tokens]
  | cons piece rest ih =>
      obtain ⟨kind, gap⟩ := piece
      simp [tokens, ih, Nat.add_assoc, String.length_toList]

/-- A comment starts with a slash. -/
theorem startsComment_of_ne {c : Char} (slash : c ≠ '/') (rest : List Char) :
    Scanner.startsComment (c :: rest) = false := by
  unfold Scanner.startsComment
  split
  next start => simp_all
  next => rfl

/-- The text of a kind is scanned to one token without a problem. -/
theorem ofChars_text (line col : Nat) {kind : Token.Kind} {rest : List Char}
    (spelled : kind.IsSpelled) (ends : kind.EndsBefore rest) :
    Scanned.ofChars line col 0 (kind.text.toList ++ rest) =
      ⟨⟨kind, ⟨line, col, col + kind.text.length - 1⟩⟩, none⟩
        :: Scanned.ofChars line (col + kind.text.length) 0 rest := by
  obtain ⟨c, run, text, gap, slash, found⟩ := Token.Kind.isScanned_text spelled ends
  have comment := startsComment_of_ne slash (run ++ rest)
  have size : kind.text.length = run.length + 1 := by
    rw [← String.length_toList, text, List.length_cons]
  have next := Scanned.ofChars_skip line (col + 1) run.length (run ++ rest)
  rw [List.drop_left] at next
  rw [text, List.cons_append, Scanned.ofChars, if_neg (by simp [gap]), if_neg (by simp [comment]),
    found]
  simp [next, size, Nat.add_assoc, Nat.add_comm 1]

/-- Gap characters only move the column. -/
theorem ofChars_gap (line col : Nat) {gap rest : List Char}
    (blank : ∀ c ∈ gap, Scanner.isGap c = true) :
    Scanned.ofChars line col 0 (gap ++ rest) =
      Scanned.ofChars line (col + gap.length) 0 rest := by
  induction gap generalizing col with
  | nil => rfl
  | cons c gap ih =>
      rw [List.forall_mem_cons] at blank
      rw [List.cons_append, Scanned.ofChars, if_pos blank.1, ih _ blank.2, List.length_cons]
      congr 1
      omega

/-- The characters of a readable layout are scanned to its tokens, and none of them
is a problem. -/
theorem ofChars_chars (line col : Nat) {layout : Layout} (readable : layout.IsReadable) :
    Scanned.ofChars line col 0 layout.chars = (layout.tokens line col).map (⟨·, none⟩) := by
  induction layout generalizing col with
  | nil => rfl
  | cons piece rest ih =>
      obtain ⟨kind, gap⟩ := piece
      obtain ⟨⟨spelled, ends⟩, blank, tail⟩ := readable
      rw [chars_cons, ofChars_text line col spelled ends, ofChars_gap _ _ blank, ih _ tail]
      rfl

/-- The tokens of a layout lie on its line, between its first and its last column. -/
theorem span_mem_tokens {line col : Nat} {layout : Layout} {token : Token}
    (readable : layout.IsReadable) (h : token ∈ layout.tokens line col) :
    token.span.line = line ∧ col ≤ token.span.startCol ∧
      token.span.endCol < col + layout.chars.length := by
  induction layout generalizing col with
  | nil => simp [tokens] at h
  | cons piece rest ih =>
      obtain ⟨kind, gap⟩ := piece
      obtain ⟨⟨spelled, ends⟩, -, tail⟩ := readable
      obtain ⟨c, run, text, -⟩ := Token.Kind.isScanned_text spelled ends
      have size : kind.text.length = run.length + 1 := by
        rw [← String.length_toList, text, List.length_cons]
      simp only [chars_cons, List.length_append, String.length_toList]
      rcases List.mem_cons.1 h with rfl | later
      · exact ⟨rfl, Nat.le_refl _, by dsimp only; omega⟩
      · obtain ⟨same, start, stop⟩ := ih tail later
        exact ⟨same, by omega, by omega⟩

/-- A readable layout without a gap at its end spans its line from the first column
to the last one. -/
theorem merge_tokens {line : Nat} {layout front : Layout} {kind : Token.Kind} {first last : Token}
    (readable : layout.IsReadable) (split : layout = front ++ [(kind, [])])
    (head : (layout.tokens line 1).head? = some first)
    (tail : (layout.tokens line 1).getLast? = some last) :
    first.span.merge last.span = ⟨line, 1, layout.chars.length⟩ := by
  obtain ⟨sameFirst, -, stopFirst⟩ := span_mem_tokens readable (List.mem_of_head? head)
  obtain ⟨sameLast, startLast, stopLast⟩ := span_mem_tokens readable (List.mem_of_getLast? tail)
  have start : first.span.startCol = 1 := by
    cases layout with
    | nil => simp [tokens] at head
    | cons piece rest =>
        obtain rfl := Option.some.inj head
        rfl
  have stop : last.span.endCol = layout.chars.length := by
    subst split
    rw [tokens_append, tokens, tokens, List.getLast?_concat] at tail
    obtain rfl := Option.some.inj tail
    simp only [chars_append, chars_cons, chars_nil, List.append_nil, List.length_append,
      String.length_toList] at stopLast ⊢
    omega
  rw [Span.merge_of_line_eq (sameFirst.trans sameLast.symm)]
  simp only [Span.mk.injEq]
  omega

end Layout

end Rocket

import Rocket.Proofs.Token.Layout
import Rocket.Proofs.Token.Scan

/-!
# How tokens are written

For each kind of token, the characters that it is written as and what may follow them
on their line. The lexeme found at a character is written as its kind says, and is as
long as the line allows.

## Implementation notes

The end of a string literal depends on all that is left of its line: it takes a quote of
the other kind only if none of its own kind comes. What follows a token is therefore
given whole, not by its first character.
-/

namespace Rocket

open Scanner (isGap isWordStart isWordChar startsComment isGap_iff isWordStart_iff isWordChar_iff
  isWordChar_eq_false_iff startsComment_iff)

namespace Token.Kind

/-- The characters of a string literal with a given content in front of `after`, which is
what is left of its line. The literal ends at the next quote of its own kind; if none
comes, at the first quote of the other kind; and if there is none of either kind, it
takes the line to its end. -/
inductive IsLiteral (content : List Char) : (text after : List Char) → Prop
  | closed {quote : Char} {after : List Char} (opens : quote ∈ ['"', '\''])
      (inside : quote ∉ content) : IsLiteral content (quote :: (content ++ [quote])) after
  | closedByOther {quote other : Char} {after : List Char} (opens : quote ∈ ['"', '\''])
      (closes : other ∈ ['"', '\'']) (differs : other ≠ quote)
      (inside : ∀ c ∈ content, c ∉ ['"', '\'']) (unmatched : quote ∉ after) :
      IsLiteral content (quote :: (content ++ [other])) after
  | unterminated {quote : Char} (opens : quote ∈ ['"', '\''])
      (inside : ∀ c ∈ content, c ∉ ['"', '\'']) : IsLiteral content (quote :: content) []

/-- Whether a character in front of `after` belongs to nothing in the language: not to a
gap or comment, and not to a string literal, number, word or mark. -/
structure IsForeign (c : Char) (after : List Char) : Prop where
  gap : c ∉ [' ', '\t', '\r']
  comment : ¬ ['/', '/'] <+: c :: after
  quote : c ∉ ['"', '\'']
  digit : c.isDigit = false
  letter : c.isAlpha = false
  mark : c ∉ ['_', '(', ')', '[', ']', ',', ';']

/-- Whether `text` in front of `after` is a token of the kind: a word, number or mark that
`after` does not continue, a string literal, or a character outside the language. -/
def IsLexeme (kind : Kind) (text after : List Char) : Prop :=
  match kind with
  | .quoted content => IsLiteral content.toList text after
  | .stray c => text = [c] ∧ IsForeign c after
  | kind => kind.IsSpelled ∧ text = kind.text.toList ∧ kind.EndsBefore after

/-- What is wrong with a token that is written as `text`: it is foreign, or a string
literal without a quote at its end. -/
def flaw? (kind : Kind) (text : List Char) : Option Problem :=
  match kind with
  | .stray c => some (.strayCharacter c)
  | .quoted content =>
      if text.length = content.length + 1 then some .unterminatedString else none
  | _ => none

/-- The text of a kind is written by itself, if what follows does not continue it. -/
theorem isLexeme_text {kind : Kind} {after : List Char} (spelled : kind.IsSpelled)
    (ends : kind.EndsBefore after) : kind.IsLexeme kind.text.toList after := by
  cases kind with
  | quoted content =>
      have quotes : (quoted content).text.toList = '"' :: (content.toList ++ ['"']) := by
        simp [text]
      rw [quotes]
      exact .closed (by decide) spelled
  | stray c => exact spelled.elim
  | newline => exact spelled.elim
  | endOfInput => exact spelled.elim
  | _ => exact ⟨spelled, rfl, ends⟩

theorem isLexeme_quoted {content text after : List Char} (literal : IsLiteral content text after) :
    (quoted (String.ofList content)).IsLexeme text after := by
  rwa [IsLexeme, String.toList_ofList]

/-! ## Words -/

theorem ofReserved?_eq_some {word : String} {kind : Kind} (h : ofReserved? word = some kind) :
    kind.text = word ∧ (kind = .loop ∨ ∃ p, kind = .primitive p) := by
  unfold ofReserved? at h
  split at h
  next same =>
    obtain rfl := Option.some.inj h
    exact ⟨same.symm, .inl rfl⟩
  next =>
    obtain ⟨p, found, rfl⟩ := Option.map_eq_some_iff.1 h
    have same : p.name = word := by simpa using List.find?_some found
    exact ⟨same, .inr ⟨p, rfl⟩⟩

/-- A word is the text of the kind it stands for. -/
theorem text_ofWord (word : String) : (ofWord word).text = word := by
  unfold ofWord
  cases found : ofReserved? word with
  | none => rfl
  | some kind => exact (ofReserved?_eq_some found).1

theorem isSpelled_ofWord {chars : List Char} (word : IsWord chars) :
    (ofWord (String.ofList chars)).IsSpelled := by
  unfold ofWord
  cases found : ofReserved? (String.ofList chars) with
  | none =>
      refine ⟨found, ?_⟩
      rwa [String.toList_ofList]
  | some kind =>
      obtain ⟨-, rfl | ⟨p, rfl⟩⟩ := ofReserved?_eq_some found
      · exact trivial
      · exact trivial

theorem endsBefore_ofWord (word : String) {after : List Char}
    (ends : ∀ c ∈ after.head?, c.isAlpha = false ∧ c.isDigit = false ∧ c ≠ '_') :
    (ofWord word).EndsBefore after := by
  unfold ofWord
  cases found : ofReserved? word with
  | none => exact ends
  | some kind =>
      obtain ⟨-, rfl | ⟨p, rfl⟩⟩ := ofReserved?_eq_some found
      · exact ends
      · exact ends

theorem flaw?_ofWord (word : String) (text : List Char) : (ofWord word).flaw? text = none := by
  unfold ofWord
  cases found : ofReserved? word with
  | none => rfl
  | some kind =>
      obtain ⟨-, rfl | ⟨p, rfl⟩⟩ := ofReserved?_eq_some found
      · rfl
      · rfl

end Token.Kind

namespace Lexeme

open Token.Kind (IsLiteral IsForeign)

/-- Whether a lexeme in front of the rest of its line is written as its kind says, and is
a problem if its kind says so. -/
structure IsWritten (c : Char) (rest : List Char) (found : Lexeme) : Prop where
  lexeme : found.kind.IsLexeme (c :: rest.take found.more) (rest.drop found.more)
  problem : found.problem? = found.kind.flaw? (c :: rest.take found.more)

/-- What follows a longest run does not continue it. -/
theorem drop_length_takeWhile (p : Char → Bool) (rest : List Char) :
    rest.take (rest.takeWhile p).length = rest.takeWhile p ∧
      ∀ c ∈ (rest.drop (rest.takeWhile p).length).head?, p c = false := by
  constructor
  · exact (List.prefix_iff_eq_take.1 (List.takeWhile_prefix p)).symm
  · intro c head
    have behind : rest.drop (rest.takeWhile p).length = rest.dropWhile p := by
      calc rest.drop (rest.takeWhile p).length
          = (rest.takeWhile p ++ rest.dropWhile p).drop (rest.takeWhile p).length := by
            rw [List.takeWhile_append_dropWhile]
        _ = rest.dropWhile p := List.drop_left
    have stops := List.head?_dropWhile_not p rest
    rw [behind] at head
    rw [Option.mem_def.1 head] at stops
    simpa using stops

theorem isWritten_ofWordStart {c : Char} (first : isWordStart c = true) (rest : List Char) :
    (ofWordStart c rest).IsWritten c rest := by
  obtain ⟨run, ends⟩ := drop_length_takeWhile isWordChar rest
  have word := Token.Kind.isWord_of_all c _ rfl first (List.all_takeWhile (l := rest))
  have spelled := Token.Kind.isSpelled_ofWord word
  have written := Token.Kind.isLexeme_text spelled <| Token.Kind.endsBefore_ofWord _
    fun d next => isWordChar_eq_false_iff.1 (ends d next)
  rw [Token.Kind.text_ofWord, String.toList_ofList] at written
  constructor
  · dsimp only [ofWordStart]
    rwa [run]
  · exact (Token.Kind.flaw?_ofWord _ _).symm

theorem isWritten_ofDigit {c : Char} (first : c.isDigit = true) (rest : List Char) :
    (ofDigit c rest).IsWritten c rest := by
  obtain ⟨run, ends⟩ := drop_length_takeWhile Char.isDigit rest
  have all : ∀ d ∈ c :: rest.takeWhile Char.isDigit, d.isDigit = true :=
    List.forall_mem_cons.2 ⟨first, List.all_eq_true.1 List.all_takeWhile⟩
  have spelled := Token.Kind.isSpelled_digits (List.cons_ne_nil c _) all
  have written := Token.Kind.isLexeme_text spelled ends
  constructor
  · dsimp only [ofDigit]
    rw [run]
    rwa [Token.Kind.text, String.toList_ofList] at written
  · rfl

/-- A string literal is written up to its last character, whichever way it ends. -/
theorem isWritten_ofQuote {quote : Char} (opens : Text.isQuote quote = true) (rest : List Char) :
    (ofQuote quote rest).IsWritten quote rest := by
  by_cases own : quote ∈ rest
  · obtain ⟨content, back, rfl, inside⟩ := List.eq_append_cons_of_mem own
    have text : (content ++ quote :: back).take (content.length + 1) = content ++ [quote] := by
      rw [List.take_length_add_append]
      rfl
    rw [Scanner.ofQuote_append_cons inside]
    constructor
    · dsimp only
      rw [text]
      exact Token.Kind.isLexeme_quoted (.closed (Text.isQuote_iff.1 opens) inside)
    · simp [Token.Kind.flaw?]
  · rw [Scanner.ofQuote_of_notMem own]
    cases found : rest.findIdx? Text.isQuote with
    | some i =>
        obtain ⟨inside, closes, before⟩ := List.findIdx?_eq_some_iff_getElem.1 found
        have text : rest.take (i + 1) = rest.take i ++ [rest[i]] :=
          List.take_succ_eq_append_getElem inside
        constructor
        · dsimp only
          rw [text]
          refine Token.Kind.isLexeme_quoted (.closedByOther (Text.isQuote_iff.1 opens)
            (Text.isQuote_iff.1 closes) ?_ ?_ ?_)
          · rintro rfl
            exact own (List.getElem_mem inside)
          · intro c member
            obtain ⟨j, bound, rfl⟩ := List.mem_take_iff_getElem.1 member
            exact mt Text.isQuote_iff.2 (before j (by omega))
          · exact fun later => own (List.mem_of_mem_drop later)
        · have size : (rest.take i).length = i := List.length_take_of_le (Nat.le_of_lt inside)
          simp [Token.Kind.flaw?]
          omega
    | none =>
        have none := List.findIdx?_eq_none_iff.1 found
        constructor
        · dsimp only
          rw [List.take_length, List.drop_length]
          exact Token.Kind.isLexeme_quoted (.unterminated (Text.isQuote_iff.1 opens)
            fun c member => mt Text.isQuote_iff.2 (Bool.eq_false_iff.1 (none c member)))
        · simp [Token.Kind.flaw?]

/-- A character that is nothing else is a mark or foreign. -/
theorem isWritten_ofMark {c : Char} {rest : List Char} (gap : isGap c = false)
    (comment : startsComment (c :: rest) = false) (quote : Text.isQuote c = false)
    (digit : c.isDigit = false) (word : isWordStart c = false) :
    (ofMark c).IsWritten c rest := by
  have noWord := mt isWordStart_iff.2 (Bool.eq_false_iff.1 word)
  rw [not_or] at noWord
  constructor
  · unfold ofMark Token.Kind.ofMark
    dsimp only
    split
    next => exact ⟨trivial, rfl, trivial⟩
    next => exact ⟨trivial, rfl, trivial⟩
    next => exact ⟨trivial, rfl, trivial⟩
    next => exact ⟨trivial, rfl, trivial⟩
    next => exact ⟨trivial, rfl, trivial⟩
    next => exact ⟨trivial, rfl, trivial⟩
    next p₁ p₂ p₃ p₄ p₅ p₆ =>
      have mark : c ∉ ['_', '(', ')', '[', ']', ',', ';'] := by
        simp only [List.mem_cons, List.not_mem_nil, or_false, not_or]
        exact ⟨noWord.2, p₁, p₂, p₃, p₄, p₅, p₆⟩
      exact ⟨rfl, mt isGap_iff.2 (Bool.eq_false_iff.1 gap),
        mt startsComment_iff.2 (Bool.eq_false_iff.1 comment),
        mt Text.isQuote_iff.2 (Bool.eq_false_iff.1 quote), digit,
        Bool.eq_false_iff.2 noWord.1, mark⟩
  · unfold ofMark Token.Kind.ofMark
    dsimp only
    split <;> rfl

/-- The lexeme at the first of some characters is written as its kind says. -/
theorem isWritten_start {c : Char} {rest : List Char} (gap : isGap c = false)
    (comment : startsComment (c :: rest) = false) : (start c rest).IsWritten c rest := by
  unfold start
  split
  next quote => exact isWritten_ofQuote quote rest
  next quote =>
    split
    next digit => exact isWritten_ofDigit digit rest
    next digit =>
      split
      next word => exact isWritten_ofWordStart word rest
      next word =>
        apply isWritten_ofMark gap comment
        · simpa using quote
        · simpa using digit
        · simpa using word

end Lexeme

end Rocket

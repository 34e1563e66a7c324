import Rocket.Proofs.Token.Coverage

/-!
# A comment behind a line

A blank and a comment behind a line leave the tokens of the line as they are. The one
exception is a string literal that is not closed on the line: it takes in the comment and is
not closed with it either.

## Implementation notes

A string literal is looked for on all that is left of its line, comments included. What
matters is therefore that the comment brings no quote, or that no literal of the line needs
one: the quote that opens it comes again on the line.
-/

namespace Rocket

open Scanner (isGap startsComment)

/-- A line with a comment put behind it. -/
def Scanner.commented (comment chars : List Char) : List Char :=
  chars ++ ' ' :: '/' :: '/' :: comment

open Scanner (commented)

variable {comment chars : List Char}

/-! ## A token in front of a comment -/

namespace Lexeme

/-- A string literal that takes all that is left of its line. -/
def opened (rest : List Char) : Lexeme :=
  ⟨.quoted (String.ofList rest), rest.length, some .unterminatedString⟩

/-- A run that a blank ends does not go on in the comment. -/
theorem takeWhile_commented {p : Char → Bool} (blank : p ' ' = false) (chars : List Char) :
    (commented comment chars).takeWhile p = chars.takeWhile p := by
  have none : (' ' :: '/' :: '/' :: comment).takeWhile p = [] :=
    List.takeWhile_cons_of_neg (by simp [blank])
  rw [commented, List.takeWhile_append, none, List.append_nil]
  split
  next whole => exact ((List.takeWhile_prefix p).eq_of_length whole).symm
  next => rfl

/-- A string literal that its own quote closes stays as it is. -/
theorem ofQuote_commented_of_mem {quote : Char} (own : quote ∈ chars) :
    ofQuote quote (commented comment chars) = ofQuote quote chars := by
  obtain ⟨content, back, rfl, unclosed⟩ := List.eq_append_cons_of_mem own
  rw [commented, List.append_assoc, List.cons_append, Scanner.ofQuote_append_cons unclosed,
    Scanner.ofQuote_append_cons unclosed]

/-- A comment without quotes does not close a string literal. -/
theorem ofQuote_commented {quote : Char} (opening : Text.isQuote quote = true)
    (plain : ∀ c ∈ comment, Text.isQuote c = false) (chars : List Char) :
    ofQuote quote (commented comment chars) = ofQuote quote chars ∨
      ofQuote quote chars = opened chars ∧
        ofQuote quote (commented comment chars) = opened (commented comment chars) := by
  by_cases own : quote ∈ chars
  · exact .inl (ofQuote_commented_of_mem own)
  · have silent : ∀ c ∈ ' ' :: '/' :: '/' :: comment, Text.isQuote c = false := by
      simpa [Text.isQuote] using plain
    have unclosed : quote ∉ commented comment chars := by
      intro member
      obtain member | member := List.mem_append.1 member
      · exact own member
      · exact absurd opening (by simp [silent quote member])
    have behind : (' ' :: '/' :: '/' :: comment).findIdx? Text.isQuote = none :=
      List.findIdx?_eq_none_iff.2 silent
    have found : (commented comment chars).findIdx? Text.isQuote =
        chars.findIdx? Text.isQuote := by
      rw [commented, List.findIdx?_append, behind, Option.map_none, Option.or_none]
    rw [Scanner.ofQuote_of_notMem own, Scanner.ofQuote_of_notMem unclosed, found]
    cases other : chars.findIdx? Text.isQuote with
    | none => exact .inr ⟨rfl, rfl⟩
    | some i =>
        have inside := (List.findIdx?_eq_some_iff_findIdx_eq.1 other).1
        have content : (commented comment chars).take i = chars.take i :=
          List.take_append_of_le_length (Nat.le_of_lt inside)
        dsimp only
        exact .inl (by rw [content])

/-- What a quote opens is a string literal. -/
theorem kind_start_of_isQuote {c : Char} (quote : Text.isQuote c = true) (rest : List Char) :
    ∃ text, (start c rest).kind = .quoted text := by
  rw [start, if_pos quote, ofQuote]
  dsimp only
  split
  · exact ⟨_, rfl⟩
  · split <;> exact ⟨_, rfl⟩

/-- What starts in front of a comment is what starts there without it, or a string literal
that is not closed. -/
theorem start_commented {c : Char}
    (harmless : (∀ c ∈ comment, Text.isQuote c = false) ∨ (Text.isQuote c = true → c ∈ chars)) :
    start c (commented comment chars) = start c chars ∨
      start c chars = opened chars ∧
        start c (commented comment chars) = opened (commented comment chars) := by
  unfold start
  split
  next quote =>
    obtain plain | own := harmless
    · exact ofQuote_commented quote plain chars
    · exact .inl (ofQuote_commented_of_mem (own quote))
  next =>
    refine .inl ?_
    split
    · rw [ofDigit, ofDigit, takeWhile_commented rfl]
    · split
      · rw [ofWordStart, ofWordStart, takeWhile_commented rfl]
      · rfl

end Lexeme

/-! ## Lines -/

/-- Whether a token, if it is a string literal, is closed by a quote of its own kind: it is
written as its text between two of them. -/
def Token.IsClosed (chars : List Char) (token : Token) : Prop :=
  ∀ text, token.kind = .quoted text → ∃ quote, Text.isQuote quote = true ∧
    token.span.slice chars = quote :: (text.toList ++ [quote])

namespace Scanned

/-- The tokens of a line, and those of a line with more behind it. A string literal that is
not closed may go on there. -/
inductive GoesOn : List Scanned → List Scanned → Prop
  | nil : GoesOn [] []
  | cons (scanned : Scanned) {found others : List Scanned} (tail : GoesOn found others) :
      GoesOn (scanned :: found) (scanned :: others)
  | opened (text text' : String) (place place' : Span) :
      GoesOn [⟨⟨.quoted text, place⟩, some .unterminatedString⟩]
        [⟨⟨.quoted text', place'⟩, some .unterminatedString⟩]

/-- Whether the character that a token starts with comes again behind it, on a line with
the given characters from column `col` on. -/
def ComesAgain (col : Nat) (chars : List Char) (token : Token) : Prop :=
  ∀ i c rest, token.span.startCol = col + i → chars.drop i = c :: rest → c ∈ rest

theorem ComesAgain.of_cons {col : Nat} {c : Char} {token : Token}
    (h : ComesAgain col (c :: chars) token) : ComesAgain (col + 1) chars token := by
  intro i d rest start drop
  exact h (i + 1) d rest (by omega) drop

/-- What is closed by a quote of its own kind has that quote behind its first one. -/
theorem comesAgain_of_isClosed {token : Token} {text : String} (kind : token.kind = .quoted text)
    (h : token.IsClosed chars) : ComesAgain 1 chars token := by
  intro i c rest start drop
  obtain ⟨quote, -, slice⟩ := h text kind
  have first : token.span.startCol - 1 = i := by omega
  rw [Span.slice, first, drop] at slice
  cases width : token.span.width with
  | zero =>
      rw [width] at slice
      cases slice
  | succ n =>
      rw [width, List.take_succ_cons] at slice
      obtain ⟨rfl, content⟩ := List.cons.inj slice
      have closing : c ∈ rest.take n := by simp [content]
      exact List.mem_of_mem_take closing

/-- No comment starts at the last character of a line, whatever is put behind the line. -/
theorem startsComment_commented (comment : List Char) (c : Char) (chars : List Char) :
    startsComment (c :: commented comment chars) = startsComment (c :: chars) := by
  cases chars with
  | nil => simp [commented, startsComment]
  | cons d chars =>
      change startsComment (c :: d :: commented comment chars) = _
      by_cases slashes : c = '/' ∧ d = '/'
      · obtain ⟨rfl, rfl⟩ := slashes
        rfl
      · unfold startsComment
        split <;> split <;> simp_all

/-- If all of a line is spoken for, there are no tokens. -/
theorem ofChars_length (line col : Nat) (chars : List Char) :
    ofChars line col chars.length chars = [] := by
  rw [ofChars_skip, List.drop_length, ofChars]

/-- A comment behind a line leaves its tokens as they are, up to a string literal that is
not closed. -/
theorem goesOn_ofChars (line col skip : Nat) (chars : List Char) (inside : skip ≤ chars.length)
    (harmless : (∀ c ∈ comment, Text.isQuote c = false) ∨
      ∀ scanned ∈ ofChars line col skip chars, ∀ text, scanned.token.kind = .quoted text →
        ComesAgain col chars scanned.token) :
    GoesOn (ofChars line col skip chars) (ofChars line col skip (commented comment chars)) := by
  fun_induction ofChars line col skip chars with
  | case1 col skip =>
      obtain rfl : skip = 0 := Nat.le_zero.1 inside
      exact .nil
  | case2 col skip c chars ih =>
      refine ih (Nat.le_of_succ_le_succ inside) (harmless.imp_right fun closed => ?_)
      exact fun scanned member text kind => (closed scanned member text kind).of_cons
  | case3 col c chars gap ih =>
      change GoesOn _ (ofChars line col 0 (c :: commented comment chars))
      rw [ofChars, if_pos gap]
      refine ih (Nat.zero_le _) (harmless.imp_right fun closed => ?_)
      exact fun scanned member text kind => (closed scanned member text kind).of_cons
  | case4 col c chars gap slashes =>
      change GoesOn _ (ofChars line col 0 (c :: commented comment chars))
      rw [ofChars, if_neg gap, if_pos (by rwa [startsComment_commented])]
      exact .nil
  | case5 col c chars gap slashes found ih =>
      change GoesOn _ (ofChars line col 0 (c :: commented comment chars))
      rw [ofChars, if_neg gap, if_neg (by rwa [startsComment_commented])]
      have here : (∀ c ∈ comment, Text.isQuote c = false) ∨
          (Text.isQuote c = true → c ∈ chars) := by
        refine harmless.imp_right fun closed quote => ?_
        obtain ⟨text, kind⟩ := Lexeme.kind_start_of_isQuote quote chars
        exact closed _ List.mem_cons_self text kind 0 c chars rfl rfl
      obtain same | ⟨opened, opened'⟩ := Lexeme.start_commented here
      · rw [same]
        refine .cons _ (ih (Lexeme.more_start_le c chars) (harmless.imp_right fun closed => ?_))
        intro scanned member text kind
        exact (closed scanned (List.mem_cons_of_mem _ member) text kind).of_cons
      · -- nothing is left of the line behind the literal
        dsimp only [found]
        rw [opened, opened']
        dsimp only [Lexeme.opened]
        rw [ofChars_length, ofChars_length]
        exact .opened _ _ _ _

end Scanned

end Rocket

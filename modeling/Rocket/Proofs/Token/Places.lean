import Rocket.Proofs.Token.Coverage

/-!
# How far a scanner comes

A scanner counts lines and columns as it passes characters, so both stay within the number
of characters it has passed. The lines of a source are together no longer than its text,
and the tokens of a line together no longer than the line.
-/

namespace Rocket

namespace Scanner

/-- Whether a scanner comes by a place on its way through a text, one character at a time. -/
inductive Passes (text : List Char) : Scanner → Prop
  | start : Passes text (.start text)
  | advance {place : Scanner} (here : Passes text place) : Passes text place.advance

namespace Passes

variable {text : List Char} {place : Scanner}

/-- Each line and each column that is counted takes a character. -/
theorem counted (here : Passes text place) :
    1 ≤ place.line ∧ 1 ≤ place.col ∧ place.line + place.col ≤ place.pos + 2 ∧
      place.pos + place.ahead.length = text.length := by
  induction here with
  | start => exact ⟨Nat.le_refl 1, Nat.le_refl 1, Nat.le_refl 2, Nat.zero_add _⟩
  | @advance place here ih =>
      obtain ⟨line, col, sum, all⟩ := ih
      unfold Scanner.advance
      split
      next => exact ⟨line, col, sum, all⟩
      next c rest more =>
        rw [more, List.length_cons] at all
        split
        · exact ⟨Nat.succ_pos _, Nat.le_refl 1, by dsimp only; omega, by dsimp only; omega⟩
        · exact ⟨line, Nat.succ_pos _, by dsimp only; omega, by dsimp only; omega⟩

theorem line_le (here : Passes text place) : place.line ≤ text.length + 1 := by
  obtain ⟨-, col, sum, all⟩ := here.counted
  omega

theorem col_le (here : Passes text place) : place.col ≤ text.length + 1 := by
  obtain ⟨line, -, sum, all⟩ := here.counted
  omega

theorem skipWhile (here : Passes text place) (p : Char → Bool) :
    Passes text (place.skipWhile p) := by
  fun_induction Scanner.skipWhile p place with
  | case1 place more ih => exact ih here.advance
  | case2 place none => exact here

theorem skipGaps (here : Passes text place) : Passes text place.skipGaps := by
  fun_induction Scanner.skipGaps place with
  | case1 place comment ih => exact ih ((here.skipWhile _).skipWhile _)
  | case2 place none => exact here.skipWhile _

/-- A string literal ends behind a quote that was passed, or at the end of its line. -/
theorem scanQuoted (here : Passes text place) {other? : Option Scanner}
    (seen : ∀ other ∈ other?, Passes text other) (quote : Char) (opening inner : Scanner) :
    Passes text (scanQuoted quote opening inner other? place).2 := by
  fun_induction Scanner.scanQuoted quote opening inner other? place with
  | case1 other? place ended =>
      cases other? with
      | none => exact here
      | some other => exact (seen other rfl).advance
  | case2 other? place inside closes => exact here.advance
  | case3 other? place inside differs other?' ih =>
      refine ih here.advance ?_
      intro other member
      dsimp only [other?'] at member
      split at member
      · obtain rfl := Option.mem_some_iff.1 member
        exact here
      · exact seen other member

theorem scanFrom (here : Passes text place) (c : Char) : Passes text (place.scanFrom c).2 := by
  unfold Scanner.scanFrom
  dsimp only
  split
  · exact here.advance
  · split
    · exact here.advance.scanQuoted (by rintro _ ⟨⟩) c place place.advance
    · split
      · exact here.advance.skipWhile _
      · split
        · exact here.advance.skipWhile _
        · exact here.advance

/-- From token to token a scanner comes by all places in order; where it goes back behind a
string literal, it was before. -/
theorem scanToken (here : Passes text place) : Passes text place.scanToken.2 := by
  unfold Scanner.scanToken
  dsimp only
  split
  · exact here.skipGaps
  · exact here.skipGaps.scanFrom _

end Passes

end Scanner

/-! ## Lengths -/

/-- The pieces of a text are together no longer than the text. -/
theorem Text.sum_length_splitOn_le (c : Char) (text : List Char) :
    ((text.splitOn c).map List.length).sum ≤ text.length := by
  induction text with
  | nil => simp
  | cons d text ih =>
      obtain ⟨first, rest, split⟩ := List.exists_cons_of_ne_nil (List.splitOn_ne_nil c text)
      rw [List.splitOn_cons_eq_if_modifyHead, split]
      rw [split, List.map_cons, List.sum_cons] at ih
      split
      · simp only [List.map_cons, List.sum_cons, List.length_nil, List.length_cons]
        omega
      · simp only [List.modifyHead_cons, List.map_cons, List.sum_cons, List.length_cons]
        omega

namespace Source

variable {source : Source}

theorem sum_length_lines_le (source : Source) :
    (source.lines.map List.length).sum ≤ source.text.toList.length := by
  rw [source.lines_eq]
  exact Text.sum_length_splitOn_le '\n' _

theorem length_le_of_mem_lines {chars : List Char} (h : chars ∈ source.lines) :
    chars.length ≤ source.text.toList.length :=
  (List.le_sum_of_mem (List.mem_map_of_mem h)).trans source.sum_length_lines_le

theorem lineCount_le (source : Source) : source.lineCount ≤ source.text.toList.length + 1 := by
  rw [lineCount, source.lines_eq, length_splitOn]
  exact Nat.succ_le_succ List.count_le_length

/-- No token is farther right or farther down than the text has characters. -/
theorem span_le_of_mem_tokens {token : Token} (h : token ∈ source.tokens) :
    token.span.line ≤ source.text.toList.length + 1 ∧
      token.span.startCol ≤ token.span.endCol ∧
      token.span.endCol ≤ source.text.toList.length + 1 := by
  obtain ⟨scanned, inScan, rfl⟩ := List.mem_map.1 h
  obtain ⟨n, chars, there, place⟩ := exists_of_mem_scan inScan
  have below : n < source.lineCount := (List.getElem?_eq_some_iff.1 there).1
  have lines := source.lineCount_le
  have short := length_le_of_mem_lines (List.mem_of_getElem? there)
  obtain inside | ⟨ending, -, rfl⟩ := place
  · have on := (Scanned.isOn_of_mem inside).1
    have stop := on.stop
    rw [Scanned.line_of_mem inside]
    exact ⟨by omega, on.order, by omega⟩
  · dsimp only [Scanned.lineEnd, Span.point]
    exact ⟨by omega, Nat.le_refl _, by omega⟩

end Source

/-! ## Room on a line -/

/-- A number of characters that a token of the kind takes at least. -/
def Token.Kind.leastLength : Kind → Nat
  | .quoted text => text.toList.length + 1
  | _ => 1

/-- A number of characters that some tokens take at least, together. -/
def Token.room (tokens : List Token) : Nat :=
  (tokens.map (·.kind.leastLength)).sum

namespace Token

@[simp]
theorem room_nil : room [] = 0 := rfl

@[simp]
theorem room_cons (token : Token) (tokens : List Token) :
    room (token :: tokens) = token.kind.leastLength + room tokens := rfl

@[simp]
theorem room_append (front back : List Token) :
    room (front ++ back) = room front + room back := by
  simp only [room, List.map_append, List.sum_append]

theorem Kind.leastLength_pos (kind : Kind) : 1 ≤ kind.leastLength := by
  cases kind <;> simp [leastLength]

end Token

theorem Token.Kind.leastLength_ofWord (word : String) : (ofWord word).leastLength = 1 := by
  unfold ofWord
  cases found : ofReserved? word with
  | none => rfl
  | some kind =>
      obtain ⟨-, rfl | ⟨p, rfl⟩⟩ := ofReserved?_eq_some found
      · rfl
      · rfl

namespace Lexeme

theorem leastLength_ofQuote_le (quote : Char) (rest : List Char) :
    (ofQuote quote rest).kind.leastLength ≤ (ofQuote quote rest).more + 1 := by
  have content : ∀ chars : List Char,
      (Token.Kind.quoted (String.ofList chars)).leastLength = chars.length + 1 := by
    intro chars
    rw [Token.Kind.leastLength, String.toList_ofList]
  unfold ofQuote
  split
  · exact (content _).trans_le (Nat.le_succ _)
  · dsimp only
    split
    · exact (content _).trans_le (Nat.le_succ _)
    · exact (content _).le

/-- A lexeme takes as many characters as its kind needs. -/
theorem leastLength_start_le (c : Char) (rest : List Char) :
    (start c rest).kind.leastLength ≤ (start c rest).more + 1 := by
  unfold start
  split
  · exact leastLength_ofQuote_le c rest
  · split
    · exact Nat.le_add_left 1 _
    · split
      · exact (Token.Kind.leastLength_ofWord _).trans_le (Nat.le_add_left 1 _)
      · unfold ofMark Token.Kind.ofMark
        split <;> exact Nat.le_refl 1

end Lexeme

namespace Scanned

/-- The tokens of a line find room behind the characters that are spoken for. -/
theorem room_ofChars_le (line col skip : Nat) (chars : List Char)
    (inside : skip ≤ chars.length) :
    Token.room ((ofChars line col skip chars).map (·.token)) + skip ≤ chars.length := by
  fun_induction ofChars line col skip chars with
  | case1 col skip => exact (Nat.zero_add skip).trans_le inside
  | case2 col skip c chars ih => exact Nat.succ_le_succ (ih (Nat.le_of_succ_le_succ inside))
  | case3 col c chars gap ih => exact (ih (Nat.zero_le _)).trans (Nat.le_succ _)
  | case4 col c chars gap comment => exact Nat.zero_le _
  | case5 col c chars gap comment found ih =>
      have first := Lexeme.leastLength_start_le c chars
      have others := ih (Lexeme.more_start_le c chars)
      rw [List.map_cons, Token.room_cons, List.length_cons]
      dsimp only [found] at others ⊢
      omega

/-- The tokens of a line find room on it. -/
theorem room_ofLine_le (n : Nat) (chars : List Char) :
    Token.room ((ofLine n chars).map (·.token)) ≤ chars.length :=
  room_ofChars_le n 1 0 chars (Nat.zero_le _)

end Scanned

end Rocket

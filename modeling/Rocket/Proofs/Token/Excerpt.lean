import Rocket.Proofs.Token.Coverage

/-!
# Cutting tokens out of a line

The tokens of a line can be cut out of it: the characters from the start of its first
token to the end of its last one have the same tokens, that much farther to the left. The
blanks in front are not needed, nor the comment behind.

## Implementation notes

Where a string literal ends may depend on all that is left of its line. Cutting the line
behind a token keeps the literals in front of it, since a quote that does not come again
on the line does not come again on a part of it. Elsewhere a line cannot be cut: the first
slash of a comment is a stray character on its own.
-/

namespace Rocket

/-! ## A token in front of less -/

namespace Lexeme

open Scanner (isWordChar)

/-- A run that is over before the cut is not affected by it. -/
theorem takeWhile_take {p : Char → Bool} {rest : List Char} {n : Nat}
    (inside : (rest.takeWhile p).length ≤ n) : (rest.take n).takeWhile p = rest.takeWhile p := by
  rw [← List.take_takeWhile, List.take_of_length_le inside]

/-- A string literal that ends before the cut is not affected by it. -/
theorem ofQuote_take {quote : Char} {rest : List Char} {n : Nat}
    (inside : (ofQuote quote rest).more ≤ n) :
    ofQuote quote (rest.take n) = ofQuote quote rest := by
  by_cases own : quote ∈ rest
  · obtain ⟨content, back, rfl, unclosed⟩ := List.eq_append_cons_of_mem own
    rw [Scanner.ofQuote_append_cons unclosed] at inside ⊢
    obtain ⟨m, rfl⟩ := Nat.exists_eq_add_of_le inside
    have cut : (content ++ quote :: back).take (content.length + 1 + m) =
        content ++ quote :: back.take m := by
      rw [Nat.add_assoc, List.take_length_add_append, Nat.add_comm 1, List.take_succ_cons]
    rw [cut, Scanner.ofQuote_append_cons unclosed]
  · have gone : quote ∉ rest.take n := fun member => own (List.mem_of_mem_take member)
    rw [Scanner.ofQuote_of_notMem own] at inside ⊢
    cases found : rest.findIdx? Text.isQuote with
    | none =>
        rw [found] at inside
        rw [List.take_of_length_le inside, Scanner.ofQuote_of_notMem own, found]
    | some i =>
        rw [found] at inside
        have kept : (rest.take n).findIdx? Text.isQuote = some i := by
          have before : i < n := inside
          simp [found, before]
        have content : (rest.take n).take i = rest.take i := by
          rw [List.take_take, Nat.min_eq_left (Nat.le_of_succ_le inside)]
        rw [Scanner.ofQuote_of_notMem gone, kept]
        dsimp only
        rw [content]

/-- A token that ends before the cut is not affected by it. -/
theorem start_take {c : Char} {rest : List Char} {n : Nat} (inside : (start c rest).more ≤ n) :
    start c (rest.take n) = start c rest := by
  unfold start at inside ⊢
  split at inside
  next quote => rw [if_pos quote, if_pos quote, ofQuote_take inside]
  next quote =>
    rw [if_neg quote, if_neg quote]
    split at inside
    next digit =>
      rw [if_pos digit, if_pos digit]
      unfold ofDigit
      rw [takeWhile_take inside]
    next digit =>
      rw [if_neg digit, if_neg digit]
      split at inside
      next word =>
        rw [if_pos word, if_pos word]
        unfold ofWordStart
        rw [takeWhile_take inside]
      next word => rw [if_neg word, if_neg word]

end Lexeme

/-! ## Moving along a line -/

/-- The same line, `k` columns farther to the right. -/
def Span.right (k : Nat) (span : Span) : Span :=
  ⟨span.line, span.startCol + k, span.endCol + k⟩

/-- The same token, `k` columns farther to the right. -/
def Token.right (k : Nat) (token : Token) : Token :=
  ⟨token.kind, token.span.right k⟩

namespace Scanned

open Scanner (isGap startsComment)

variable {line col skip : Nat} {chars : List Char} {first last : Scanned}

/-- The same token and problem, `k` columns farther to the right. -/
def right (k : Nat) (scanned : Scanned) : Scanned :=
  ⟨scanned.token.right k, scanned.problem?⟩

/-- Scanning does not depend on the column it starts at. -/
theorem ofChars_right (k line col skip : Nat) (chars : List Char) :
    ofChars line (col + k) skip chars = (ofChars line col skip chars).map (right k) := by
  fun_induction ofChars line col skip chars with
  | case1 => rfl
  | case2 col skip c chars ih => rw [ofChars, ← ih, Nat.add_right_comm]
  | case3 col c chars gap ih => rw [ofChars, if_pos gap, ← ih, Nat.add_right_comm]
  | case4 col c chars gap comment => rw [ofChars, if_neg gap, if_pos comment, List.map_nil]
  | case5 col c chars gap comment found ih =>
      rw [ofChars, if_neg gap, if_neg comment, List.map_cons, ← ih, Nat.add_right_comm col 1 k]
      dsimp only [right, Token.right, Span.right]
      rw [Nat.add_right_comm col found.more k]

/-- What is in front of the first token can be left out. -/
theorem ofChars_drop {others : List Scanned}
    (found : ofChars line col skip chars = first :: others) :
    ∃ i, first.token.span.startCol = col + i ∧
      ofChars line (col + i) 0 (chars.drop i) = first :: others := by
  fun_induction ofChars line col skip chars with
  | case1 => cases found
  | case2 col skip c chars ih =>
      obtain ⟨i, start, rest⟩ := ih found
      exact ⟨i + 1, by omega, by rwa [Nat.add_assoc, Nat.add_comm 1] at rest⟩
  | case3 col c chars gap ih =>
      obtain ⟨i, start, rest⟩ := ih found
      exact ⟨i + 1, by omega, by rwa [Nat.add_assoc, Nat.add_comm 1] at rest⟩
  | case4 => cases found
  | case5 col c chars gap comment lexeme ih =>
      obtain ⟨rfl, rfl⟩ := List.cons.inj found
      exact ⟨0, rfl, by rw [List.drop_zero, Nat.add_zero, ofChars, if_neg gap, if_neg comment]⟩

/-- No comment starts where none started before the cut. -/
theorem startsComment_take {n : Nat} (none : ¬ startsComment chars = true) :
    ¬ startsComment (chars.take n) = true := by
  intro comment
  unfold startsComment at comment
  split at comment
  next rest slashes =>
    obtain ⟨back, split⟩ := List.take_prefix n chars
    rw [slashes] at split
    subst split
    exact none rfl
  next => cases comment

theorem order_of_mem {scanned : Scanned} (h : scanned ∈ ofChars line col skip chars) :
    scanned.token.span.startCol ≤ scanned.token.span.endCol := by
  obtain ⟨i, c, rest, -, -, -, rfl⟩ := exists_start_of_mem h
  exact Nat.le_add_right _ _

/-- Where no token is left, everything can be left out that is not spoken for. -/
theorem ofChars_take_skip
    (inside : ∀ scanned ∈ ofChars line col skip chars, scanned.token.span.endCol < col + skip) :
    ofChars line col skip (chars.take skip) = ofChars line col skip chars := by
  have none : ofChars line col skip chars = [] := by
    refine List.eq_nil_iff_forall_not_mem.2 fun scanned member => ?_
    have stops := inside scanned member
    have starts := startCol_of_mem member
    have order := order_of_mem member
    omega
  rw [none, ofChars_skip, List.drop_eq_nil_of_le (List.length_take_le skip chars), ofChars]

/-- A place behind a token is behind all that is spoken for. -/
theorem lt_of_mem {stop : Nat} (member : last ∈ ofChars line col skip chars)
    (ends : last.token.span.endCol + 1 = col + stop) : skip < stop := by
  have starts := startCol_of_mem member
  have order := order_of_mem member
  omega

/-- What is behind the last token can be left out. -/
theorem ofChars_take {stop : Nat} (member : last ∈ ofChars line col skip chars)
    (ends : last.token.span.endCol + 1 = col + stop)
    (inside : ∀ scanned ∈ ofChars line col skip chars, scanned.token.span.endCol < col + stop) :
    ofChars line col skip (chars.take stop) = ofChars line col skip chars := by
  have behind := lt_of_mem member ends
  obtain ⟨stop, rfl⟩ : ∃ before, stop = before + 1 := ⟨stop - 1, by omega⟩
  fun_induction ofChars line col skip chars generalizing stop with
  | case1 => cases member
  | case2 col skip c chars ih =>
      obtain ⟨stop, rfl⟩ : ∃ before, stop = before + 1 := ⟨stop - 1, by omega⟩
      have shift : col + (stop + 1 + 1) = col + 1 + (stop + 1) := by omega
      rw [shift] at ends inside
      rw [List.take_succ_cons, ofChars]
      exact ih member stop ends inside (Nat.lt_of_succ_lt_succ behind)
  | case3 col c chars gap ih =>
      have shift : col + (stop + 1) = col + 1 + stop := by omega
      rw [shift] at ends inside
      have behind := lt_of_mem member ends
      obtain ⟨stop, rfl⟩ : ∃ before, stop = before + 1 := ⟨stop - 1, by omega⟩
      rw [List.take_succ_cons, ofChars, if_pos gap]
      exact ih member stop ends inside behind
  | case4 => cases member
  | case5 col c chars gap comment lexeme ih =>
      have shift : col + (stop + 1) = col + 1 + stop := by omega
      rw [shift] at ends inside
      obtain ⟨here, later⟩ := List.forall_mem_cons.1 inside
      have short : lexeme.more ≤ stop := by
        dsimp only at here
        omega
      have none : ¬ startsComment (c :: chars.take stop) = true :=
        startsComment_take (n := stop + 1) comment
      rw [List.take_succ_cons, ofChars, if_neg gap, if_neg none, Lexeme.start_take short]
      refine congrArg (_ :: ·) ?_
      obtain rfl | member := List.mem_cons.1 member
      · obtain rfl : stop = lexeme.more := by
          dsimp only at ends
          omega
        exact ofChars_take_skip later
      · have behind := lt_of_mem member ends
        obtain ⟨stop, rfl⟩ : ∃ before, stop = before + 1 := ⟨stop - 1, by omega⟩
        exact ih member stop ends later behind

/-- No token of a line goes beyond its last one. -/
theorem endCol_le_of_getLast? {n : Nat} (tail : (ofLine n chars).getLast? = some last)
    {scanned : Scanned} (member : scanned ∈ ofLine n chars) :
    scanned.token.span.endCol ≤ last.token.span.endCol := by
  obtain ⟨front, split⟩ := List.getLast?_eq_some_iff.1 tail
  have order : (ofLine n chars).Pairwise _ := pairwise_ofChars n 1 0 chars
  have wide := order_of_mem (List.mem_of_getLast? tail)
  rw [split] at order member
  obtain early | same := List.mem_append.1 member
  · have before := (List.pairwise_append.1 order).2.2 scanned early last
      (List.mem_singleton_self last)
    omega
  · rw [List.mem_singleton.1 same]

/-- No token of a line starts in front of its first one. -/
theorem startCol_le_of_head? {n : Nat} (head : (ofLine n chars).head? = some first)
    {scanned : Scanned} (member : scanned ∈ ofLine n chars) :
    first.token.span.startCol ≤ scanned.token.span.startCol := by
  obtain ⟨others, split⟩ := List.head?_eq_some_iff.1 head
  have order : (ofLine n chars).Pairwise _ := pairwise_ofChars n 1 0 chars
  have wide := order_of_mem (List.mem_of_head? head)
  rw [split] at order member
  obtain rfl | later := List.mem_cons.1 member
  · exact Nat.le_refl _
  · have before := (List.pairwise_cons.1 order).1 scanned later
    omega

/-- The first and the last token of a line cover what is between them. -/
theorem merge_ends {n : Nat} (head : (ofLine n chars).head? = some first)
    (tail : (ofLine n chars).getLast? = some last) :
    first.token.span.merge last.token.span =
      ⟨n, first.token.span.startCol, last.token.span.endCol⟩ := by
  have inFirst := List.mem_of_head? head
  have inLast := List.mem_of_getLast? tail
  have firstLine := line_of_mem inFirst
  have lastLine := line_of_mem inLast
  rw [Span.merge_of_line_eq (firstLine.trans lastLine.symm), firstLine,
    Nat.min_eq_left (startCol_le_of_head? head inLast),
    Nat.max_eq_right (endCol_le_of_getLast? tail inFirst)]

/-- The tokens of a line are those of what is from the first to the last of them, moved
to its place. -/
theorem ofLine_slice {n : Nat} (head : (ofLine n chars).head? = some first)
    (tail : (ofLine n chars).getLast? = some last) :
    (ofLine n (Span.slice ⟨n, first.token.span.startCol, last.token.span.endCol⟩ chars)).map
      (right (first.token.span.startCol - 1)) = ofLine n chars := by
  obtain ⟨others, split⟩ := List.head?_eq_some_iff.1 head
  obtain ⟨i, start, dropped⟩ := ofChars_drop split
  rw [← split] at dropped
  have inside : ∀ scanned ∈ ofChars n (1 + i) 0 (chars.drop i),
      scanned.token.span.endCol ≤ last.token.span.endCol := by
    rw [dropped]
    exact fun scanned => endCol_le_of_getLast? tail
  have member : last ∈ ofChars n (1 + i) 0 (chars.drop i) := by
    rw [dropped]
    exact List.mem_of_getLast? tail
  have starts := startCol_of_mem member
  have wide := order_of_mem member
  have width : last.token.span.endCol + 1 = 1 + i + (last.token.span.endCol + 1 - (1 + i)) := by
    omega
  have taken := ofChars_take member width fun scanned known => by
    have before := inside scanned known
    omega
  calc (ofLine n (Span.slice ⟨n, first.token.span.startCol, last.token.span.endCol⟩ chars)).map
        (right (first.token.span.startCol - 1))
      = ofChars n (1 + i) 0 ((chars.drop i).take (last.token.span.endCol + 1 - (1 + i))) := by
        dsimp only [Span.slice, Span.width]
        rw [start, Nat.add_sub_cancel_left, ofLine, ← ofChars_right]
    _ = ofLine n chars := taken.trans dropped

/-- What is from the first token of a line to the last one is the whole of its own line. -/
theorem ends_slice {n : Nat} {first' last' : Scanned}
    (head : (ofLine n chars).head? = some first) (tail : (ofLine n chars).getLast? = some last)
    (head' : (ofLine n (Span.slice ⟨n, first.token.span.startCol, last.token.span.endCol⟩
      chars)).head? = some first')
    (tail' : (ofLine n (Span.slice ⟨n, first.token.span.startCol, last.token.span.endCol⟩
      chars)).getLast? = some last') :
    first'.token.span.startCol = 1 ∧
      last'.token.span.endCol = last.token.span.endCol - first.token.span.startCol + 1 := by
  have slice := ofLine_slice head tail
  have start := congrArg List.head? slice
  have stop := congrArg List.getLast? slice
  rw [List.head?_map, head', head] at start
  rw [List.getLast?_map, tail', tail] at stop
  have start := congrArg (·.token.span.startCol) (Option.some.inj start)
  have stop := congrArg (·.token.span.endCol) (Option.some.inj stop)
  dsimp only [right, Token.right, Span.right] at start stop
  have one := (isOn_of_mem (List.mem_of_head? head)).1.start
  have wide := order_of_mem (List.mem_of_getLast? tail)
  have order := startCol_le_of_head? head (List.mem_of_getLast? tail)
  omega

end Scanned

end Rocket

import Rocket.Proofs.Finding.Collection
import Rocket.Proofs.Reading.Recovery
import Rocket.Proofs.Token.Scan

/-!
# The lines of a source

The tokens of a source fall into lines where its text does, and what a source reads
as is put together from what its lines read as.

## Implementation notes

A line is determined by its number, its characters and the token that ends it. The
last one differs between the lines of a source: the end of input ends the last line
and a newline every other one.
-/

namespace Rocket

namespace Line

/-- The line of number `n` with the given characters, ended by a token of kind
`ending`. -/
def ofChars (ending : Token.Kind) (n : Nat) (chars : List Char) : Line :=
  ⟨(Scanned.ofLine n chars).map (·.token), (Scanned.lineEnd ending n chars).token⟩

/-- Consecutive lines, the first of number `n`. -/
def ofLines (n : Nat) : List (List Char) → List Line
  | [] => []
  | [chars] => [ofChars .endOfInput n chars]
  | chars :: rest => ofChars .newline n chars :: ofLines (n + 1) rest

theorem ofLines_cons_cons (n : Nat) (chars next : List Char) (rest : List (List Char)) :
    ofLines n (chars :: next :: rest) =
      ofChars .newline n chars :: ofLines (n + 1) (next :: rest) := rfl

/-- There is nothing to read on an empty line, and nothing to remark. -/
theorem read_ofChars_nil (source : Source) (ending : Token.Kind) (n : Nat) :
    read source (ofChars ending n []) = .fail [] := rfl

/-- The tokens of consecutive lines fall into these lines. -/
theorem ofTokens_ofLines (n : Nat) {lines : List (List Char)} (nonempty : lines ≠ []) :
    ofTokens ((Scanned.ofLines n lines).map (·.token)) = ofLines n lines := by
  have inner : ∀ n chars, ∀ token ∈ (Scanned.ofLine n chars).map (·.token),
      token.kind.isLineEnd = false := by
    intro n chars token member
    obtain ⟨scanned, inLine, rfl⟩ := List.mem_map.1 member
    exact Scanned.isLineEnd_of_mem inLine
  fun_induction ofLines n lines with
  | case1 => exact absurd rfl nonempty
  | case2 n chars =>
      rw [Scanned.ofLines, List.map_append, ofTokens_append (inner n chars)]
      simp [ofTokens, Scanned.lineEnd, ofChars]
  | case3 n chars rest more ih =>
      obtain ⟨next, rest, rfl⟩ := List.exists_cons_of_ne_nil more
      rw [Scanned.ofLines_cons_cons, List.map_append, ofTokens_append (inner n chars),
        List.map_cons, ofTokens]
      simpa [Scanned.lineEnd, ofChars] using ih more

/-- The last of consecutive lines is ended by the end of input. -/
theorem hasEnd_ofLines (n : Nat) {lines : List (List Char)} (nonempty : lines ≠ []) :
    HasEnd ((Scanned.ofLines n lines).map (·.token)) := by
  fun_induction ofLines n lines with
  | case1 => exact absurd rfl nonempty
  | case2 n chars =>
      refine ⟨(Scanned.lineEnd .endOfInput n chars).token, ?_, rfl⟩
      apply List.mem_map_of_mem
      exact List.mem_append_right _ (List.mem_singleton.2 rfl)
  | case3 n chars rest more ih =>
      obtain ⟨token, member, last⟩ := ih more
      obtain ⟨next, rest, rfl⟩ := List.exists_cons_of_ne_nil more
      refine ⟨token, ?_, last⟩
      rw [Scanned.ofLines_cons_cons, List.map_append, List.map_cons]
      exact List.mem_append_right _ (List.mem_cons_of_mem _ member)

/-- Lines that others follow are all ended by newlines. -/
theorem ofLines_append (n : Nat) (front : List (List Char)) {back : List (List Char)}
    (nonempty : back ≠ []) :
    ofLines n (front ++ back) =
      ((front.zipIdx n).map fun (chars, i) => ofChars .newline i chars)
        ++ ofLines (n + front.length) back := by
  induction front generalizing n with
  | nil => rfl
  | cons chars front ih =>
      have more : front ++ back ≠ [] := by simp [nonempty]
      obtain ⟨next, rest, split⟩ := List.exists_cons_of_ne_nil more
      rw [List.cons_append, split, ofLines_cons_cons, ← split, ih]
      simp [Nat.add_assoc, Nat.add_comm 1]

/-- The number of a line. -/
def number (line : Line) : Nat :=
  line.stop.span.line

@[simp]
theorem number_ofChars (ending : Token.Kind) (n : Nat) (chars : List Char) :
    (ofChars ending n chars).number = n := rfl

/-- Consecutive lines have consecutive numbers. -/
theorem map_number_ofLines (n : Nat) (lines : List (List Char)) :
    (ofLines n lines).map number = List.range' n lines.length := by
  fun_induction ofLines n lines with
  | case1 => rfl
  | case2 => rfl
  | case3 n chars rest more ih =>
      rw [List.map_cons, ih, List.length_cons, List.range'_succ, number_ofChars]

/-- The kind of the token that ends line `i` when lines from `stop` on are missing. -/
def ending (stop i : Nat) : Token.Kind :=
  if i + 1 < stop then .newline else .endOfInput

theorem isLineEnd_ending (stop i : Nat) : (ending stop i).isLineEnd = true := by
  unfold ending
  split <;> rfl

/-- Each of consecutive lines stems from its characters. -/
theorem ofLines_eq_map (n : Nat) (lines : List (List Char)) :
    ofLines n lines =
      (lines.zipIdx n).map fun (chars, i) => ofChars (ending (n + lines.length) i) i chars := by
  fun_induction ofLines n lines with
  | case1 => rfl
  | case2 n chars => simp [ending]
  | case3 n chars rest more ih =>
      have size : 0 < rest.length := List.length_pos_iff.2 more
      have first : ending (n + (chars :: rest).length) n = .newline := by
        rw [ending, if_pos (by rw [List.length_cons]; omega)]
      have shift : n + (chars :: rest).length = n + 1 + rest.length := by
        rw [List.length_cons]
        omega
      rw [ih, List.zipIdx_cons, List.map_cons]
      dsimp only
      rw [first, shift]

end Line

/-! ## Tokens of a line -/

namespace Scanned

/-- Whether a token is one of line `n`, and not the one that ends it. -/
def isInside (n : Nat) (token : Token) : Bool :=
  token.span.line = n && !token.kind.isLineEnd

/-- The tokens of one line lie all on it. -/
theorem filter_isInside_ofLine (m n : Nat) (chars : List Char) :
    ((ofLine m chars).map (·.token)).filter (isInside n) =
      if m = n then (ofLine m chars).map (·.token) else [] := by
  have inside : ∀ token ∈ (ofLine m chars).map (·.token), isInside n token = decide (m = n) := by
    intro token member
    obtain ⟨scanned, inLine, rfl⟩ := List.mem_map.1 member
    simp [isInside, line_of_mem inLine, isLineEnd_of_mem inLine]
  split
  next same =>
    rw [List.filter_eq_self]
    intro token member
    simp [inside token member, same]
  next differ =>
    rw [List.filter_eq_nil_iff]
    intro token member
    simp [inside token member, differ]

/-- The token that ends a line is not inside any. -/
theorem isInside_lineEnd {ending : Token.Kind} (last : ending.isLineEnd = true) (m n : Nat)
    (chars : List Char) : isInside n (lineEnd ending m chars).token = false := by
  simp [isInside, lineEnd, last]

/-- Of a line and what follows it, the tokens inside a line are those of either. -/
theorem filter_isInside_cons {ending : Token.Kind} (last : ending.isLineEnd = true) (m n : Nat)
    (chars : List Char) (rest : List Scanned) :
    ((ofLine m chars ++ lineEnd ending m chars :: rest).map (·.token)).filter (isInside n) =
      (if m = n then (ofLine m chars).map (·.token) else [])
        ++ (rest.map (·.token)).filter (isInside n) := by
  rw [List.map_append, List.filter_append, filter_isInside_ofLine, List.map_cons,
    List.filter_cons, isInside_lineEnd last, if_neg Bool.false_ne_true]

/-- Consecutive lines put nothing on the lines before them. -/
theorem filter_isInside_of_lt {m n : Nat} (before : m < n) (lines : List (List Char)) :
    ((ofLines n lines).map (·.token)).filter (isInside m) = [] := by
  fun_induction ofLines n lines with
  | case1 => rfl
  | case2 n chars =>
      rw [filter_isInside_cons rfl, if_neg (Nat.ne_of_gt before)]
      rfl
  | case3 n chars rest more ih =>
      rw [filter_isInside_cons rfl, if_neg (Nat.ne_of_gt before), List.nil_append]
      exact ih (Nat.lt_succ_of_lt before)

/-- The tokens that consecutive lines put on one of them are those of its characters. -/
theorem filter_isInside_ofLines {n : Nat} {lines : List (List Char)} {line : Line}
    (h : line ∈ Line.ofLines n lines) :
    ((ofLines n lines).map (·.token)).filter (isInside line.number) = line.tokens := by
  fun_induction ofLines n lines with
  | case1 => simp [Line.ofLines] at h
  | case2 n chars =>
      obtain rfl := List.mem_singleton.1 h
      rw [filter_isInside_cons rfl, Line.number_ofChars, if_pos rfl]
      exact List.append_nil _
  | case3 n chars rest more ih =>
      obtain ⟨next, rest, rfl⟩ := List.exists_cons_of_ne_nil more
      rw [Line.ofLines_cons_cons] at h
      rw [filter_isInside_cons rfl]
      obtain rfl | later := List.mem_cons.1 h
      · rw [Line.number_ofChars, if_pos rfl, filter_isInside_of_lt (Nat.lt_succ_self n),
          List.append_nil]
        rfl
      · have behind : n < line.number := by
          have member := List.mem_map_of_mem (f := Line.number) later
          rw [Line.map_number_ofLines, List.mem_range'_1] at member
          exact member.1
        rw [if_neg (Nat.ne_of_lt behind), List.nil_append, ih later]

end Scanned

namespace Source

/-- The tokens on line `n`, without the one that ends it. -/
def tokensOf (source : Source) (n : Nat) : List Token :=
  source.tokens.filter (Scanned.isInside n)

/-- The kinds of the tokens on line `n`. -/
def kindsOf (source : Source) (n : Nat) : List Token.Kind :=
  (source.tokensOf n).map (·.kind)

/-- The lines that the tokens of the source fall into. -/
def tokenLines (source : Source) : List Line :=
  Line.ofLines 1 source.lines

/-- A source has at least one line. -/
theorem lines_ne_nil (source : Source) : source.lines ≠ [] := by
  rw [source.lines_eq]
  exact List.splitOn_ne_nil _ _

theorem ofTokens_tokens (source : Source) : Line.ofTokens source.tokens = source.tokenLines := by
  rw [tokens, scan_eq]
  exact Line.ofTokens_ofLines 1 source.lines_ne_nil

theorem hasEnd_tokens (source : Source) : HasEnd source.tokens := by
  rw [tokens, scan_eq]
  exact Line.hasEnd_ofLines 1 source.lines_ne_nil

theorem tokens_of_mem {source : Source} {line : Line} (h : line ∈ source.tokenLines) :
    line.tokens = source.tokensOf line.number := by
  rw [tokensOf, tokens, scan_eq]
  exact (Scanned.filter_isInside_ofLines h).symm

theorem map_number_tokenLines (source : Source) :
    source.tokenLines.map Line.number = List.range' 1 source.lineCount :=
  Line.map_number_ofLines 1 source.lines

theorem newline_notMem_splitOn (text : List Char) :
    ∀ chars ∈ text.splitOn '\n', '\n' ∉ chars := by
  induction text with
  | nil => simp
  | cons c text ih =>
      obtain ⟨first, rest, split⟩ := List.exists_cons_of_ne_nil (List.splitOn_ne_nil '\n' text)
      rw [split, List.forall_mem_cons] at ih
      rw [List.splitOn_cons_eq_if_modifyHead, split]
      by_cases newline : c = '\n'
      · simpa [newline] using ih
      · simpa [newline, Ne.symm newline] using ih

/-- No line of a source goes on behind a newline. -/
theorem newline_notMem_of_mem_lines {source : Source} {chars : List Char}
    (h : chars ∈ source.lines) : '\n' ∉ chars := by
  rw [source.lines_eq] at h
  exact newline_notMem_splitOn source.text.toList chars h

end Source

end Rocket

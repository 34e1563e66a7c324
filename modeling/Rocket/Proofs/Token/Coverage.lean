import Rocket.Proofs.Token.Spelling

/-!
# What tokens cover

The tokens of a line stand on it in order, each over the characters that it is written
as, and what they leave free are gaps and a comment at the end of the line. The tokens of
a source are those of its lines, with a newline behind every line but the last and the
end of input behind that one: nothing of the source is lost, and the numbers of lines
and columns are those of the source.
-/

namespace Rocket

/-- The characters of a line under a span. -/
def Span.slice (span : Span) (chars : List Char) : List Char :=
  (chars.drop (span.startCol - 1)).take span.width

/-- The characters of a line behind a span. -/
def Span.behind (span : Span) (chars : List Char) : List Char :=
  chars.drop span.endCol

/-- Whether a span comes before another one, on an earlier line or on the same line
without an overlap. -/
def Span.IsBefore (a b : Span) : Prop :=
  a.line < b.line ∨ a.line = b.line ∧ a.endCol < b.startCol

/-- Whether a token stands on a line with the given characters, over those that it is
written as. -/
structure Token.IsOn (chars : List Char) (token : Token) : Prop where
  start : 1 ≤ token.span.startCol
  order : token.span.startCol ≤ token.span.endCol
  stop : token.span.endCol ≤ chars.length
  lexeme : token.kind.IsLexeme (token.span.slice chars) (token.span.behind chars)

namespace Scanned

open Scanner (isGap startsComment)

variable {line col skip : Nat} {chars : List Char} {scanned : Scanned}

/-- A token inside a line stands on it, and is a problem if its kind and text say so. -/
theorem isOn_of_mem (h : scanned ∈ ofLine line chars) :
    scanned.token.IsOn chars ∧
      scanned.problem? = scanned.token.kind.flaw? (scanned.token.span.slice chars) := by
  obtain ⟨i, c, rest, drop, gap, comment, rfl⟩ := exists_start_of_mem h
  have written := Lexeme.isWritten_start gap comment
  have inside := Lexeme.more_start_le c rest
  generalize Lexeme.start c rest = found at written inside
  have size : chars.length - i = rest.length + 1 := by
    rw [← List.length_drop, drop, List.length_cons]
  have slice : (chars.drop (1 + i - 1)).take (1 + i + found.more + 1 - (1 + i)) =
      c :: rest.take found.more := by
    have first : 1 + i - 1 = i := by omega
    have count : 1 + i + found.more + 1 - (1 + i) = found.more + 1 := by omega
    rw [first, count, drop, List.take_succ_cons]
  have behind : chars.drop (1 + i + found.more) = rest.drop found.more := by
    have split : 1 + i + found.more = i + (found.more + 1) := by omega
    rw [split, ← List.drop_drop, drop, List.drop_succ_cons]
  refine ⟨⟨Nat.le_add_right 1 i, Nat.le_add_right _ _, ?_, ?_⟩, ?_⟩
  · dsimp only
    omega
  · dsimp only [Span.slice, Span.behind, Span.width]
    rw [slice, behind]
    exact written.lexeme
  · dsimp only [Span.slice, Span.width]
    rw [slice]
    exact written.problem

/-- A token starts behind the characters that are spoken for. -/
theorem startCol_of_mem (h : scanned ∈ ofChars line col skip chars) :
    col + skip ≤ scanned.token.span.startCol := by
  rw [ofChars_skip] at h
  obtain ⟨i, c, rest, -, -, -, rfl⟩ := exists_start_of_mem h
  exact Nat.le_add_right _ _

/-- The tokens of a line come one after the other. -/
theorem pairwise_ofChars (line col skip : Nat) (chars : List Char) :
    (ofChars line col skip chars).Pairwise fun a b =>
      a.token.span.endCol < b.token.span.startCol := by
  fun_induction ofChars line col skip chars with
  | case1 => exact .nil
  | case2 col skip c chars ih => exact ih
  | case3 col c chars _ ih => exact ih
  | case4 => exact .nil
  | case5 col c chars gap comment found ih =>
      refine List.pairwise_cons.2 ⟨?_, ih⟩
      intro later member
      have start := startCol_of_mem member
      dsimp only
      omega

/-- Whether the tokens `found` account for the characters from column `col` on, of which
the first `skip` are spoken for: up to place `stop` each character is in a gap or under a
token, and then there is nothing or a comment. -/
structure AccountsFor (col skip : Nat) (chars : List Char) (found : List Scanned)
    (stop : Nat) : Prop where
  start : skip ≤ stop
  inside : stop ≤ chars.length
  behind : chars.drop stop = [] ∨ startsComment (chars.drop stop) = true
  before : ∀ scanned ∈ found, scanned.token.span.endCol < col + stop
  covered : ∀ i c, skip ≤ i → i < stop → chars[i]? = some c →
    isGap c = true ∨ ∃ scanned ∈ found,
      scanned.token.span.startCol ≤ col + i ∧ col + i ≤ scanned.token.span.endCol

/-- One more character in front, with the tokens that start there. Each place up to the
end of what is spoken for is under one of them, unless it was spoken for before or is a
gap. -/
theorem AccountsFor.cons {found : List Scanned} {stop before : Nat} {c : Char}
    (h : AccountsFor (col + 1) skip chars found stop) (front : List Scanned)
    (start : before ≤ skip + 1)
    (ends : ∀ scanned ∈ front, scanned.token.span.endCol ≤ col + skip)
    (here : ∀ i, before ≤ i → i ≤ skip → i = 0 ∧ isGap c = true ∨ ∃ scanned ∈ front,
      scanned.token.span.startCol ≤ col + i ∧ col + i ≤ scanned.token.span.endCol) :
    AccountsFor col before (c :: chars) (front ++ found) (stop + 1) where
  start := Nat.le_trans start (Nat.succ_le_succ h.start)
  inside := Nat.succ_le_succ h.inside
  behind := h.behind
  before := by
    intro scanned member
    obtain first | later := List.mem_append.1 member
    · have stops := ends scanned first
      have far := h.start
      omega
    · have stops := h.before scanned later
      omega
  covered := by
    intro i d after inside there
    by_cases spoken : i ≤ skip
    · obtain ⟨rfl, gap⟩ | ⟨scanned, first, under⟩ := here i after spoken
      · obtain rfl := Option.some.inj there
        exact .inl gap
      · exact .inr ⟨scanned, List.mem_append_left _ first, under⟩
    · obtain ⟨j, rfl⟩ : ∃ j, i = j + 1 := ⟨i - 1, by omega⟩
      obtain gap | ⟨scanned, later, under⟩ := h.covered j d (by omega) (by omega) there
      · exact .inl gap
      · refine .inr ⟨scanned, List.mem_append_right _ later, ?_⟩
        omega

/-- The tokens of a line account for all of its characters. -/
theorem exists_accountsFor (line col skip : Nat) (chars : List Char)
    (inside : skip ≤ chars.length) :
    ∃ stop, AccountsFor col skip chars (ofChars line col skip chars) stop := by
  fun_induction ofChars line col skip chars with
  | case1 col skip => exact ⟨0, inside, Nat.le_refl _, .inl rfl, by simp, by simp⟩
  | case2 col skip c chars ih =>
      obtain ⟨stop, rest⟩ := ih (Nat.le_of_succ_le_succ inside)
      refine ⟨stop + 1, rest.cons [] (Nat.le_refl _) (List.forall_mem_nil _) ?_⟩
      intro i after spoken
      omega
  | case3 col c chars gap ih =>
      obtain ⟨stop, rest⟩ := ih (Nat.zero_le _)
      refine ⟨stop + 1, rest.cons [] (Nat.zero_le _) (List.forall_mem_nil _) ?_⟩
      intro i _ spoken
      exact .inl ⟨Nat.le_zero.1 spoken, gap⟩
  | case4 col c chars gap comment =>
      exact ⟨0, Nat.le_refl _, Nat.zero_le _, .inr comment, by simp, by simp⟩
  | case5 col c chars gap comment found ih =>
      obtain ⟨stop, rest⟩ := ih (Lexeme.more_start_le c chars)
      refine ⟨stop + 1, rest.cons [_] (Nat.zero_le _) ?_ ?_⟩
      · intro scanned first
        obtain rfl := List.mem_singleton.1 first
        exact Nat.le_refl _
      · intro i _ spoken
        exact .inr ⟨_, List.mem_singleton_self _, Nat.le_add_right _ _,
          Nat.add_le_add_left spoken _⟩

/-! ## Consecutive lines -/

variable {n : Nat} {lines : List (List Char)}

theorem le_line_of_mem_ofLines (h : scanned ∈ ofLines n lines) :
    n ≤ scanned.token.span.line := by
  obtain ⟨i, chars, -, inside | ⟨ending, -, rfl⟩⟩ := exists_of_mem_ofLines h
  · rw [line_of_mem inside]
    exact Nat.le_add_right n i
  · exact Nat.le_add_right n i

/-- The tokens of a line and the one that ends it come one after the other. -/
theorem pairwise_ofLine (ending : Token.Kind) (n : Nat) (chars : List Char) :
    (ofLine n chars ++ [lineEnd ending n chars]).Pairwise fun a b =>
      a.token.span.IsBefore b.token.span := by
  refine List.pairwise_append.2 ⟨?_, List.pairwise_singleton _ _, ?_⟩
  · refine (pairwise_ofChars n 1 0 chars).imp_of_mem ?_
    intro a b inA inB order
    exact .inr ⟨(line_of_mem inA).trans (line_of_mem inB).symm, order⟩
  · intro a inA b inB
    obtain rfl := List.mem_singleton.1 inB
    exact .inr ⟨line_of_mem inA, Nat.lt_succ_of_le (isOn_of_mem inA).1.stop⟩

/-- The tokens of consecutive lines come one after the other. -/
theorem pairwise_ofLines (n : Nat) (lines : List (List Char)) :
    (ofLines n lines).Pairwise fun a b => a.token.span.IsBefore b.token.span := by
  fun_induction ofLines n lines with
  | case1 => exact .nil
  | case2 n chars => exact pairwise_ofLine .endOfInput n chars
  | case3 n chars rest more ih =>
      rw [List.append_cons]
      refine List.pairwise_append.2 ⟨pairwise_ofLine .newline n chars, ih, ?_⟩
      intro a here b later
      have below := le_line_of_mem_ofLines later
      have line : a.token.span.line = n := by
        obtain inside | last := List.mem_append.1 here
        · exact line_of_mem inside
        · obtain rfl := List.mem_singleton.1 last
          rfl
      exact .inl (by omega)

/-- The end of input comes once, at the end of the last line. -/
theorem ofLines_eq_concat (nonempty : lines ≠ []) :
    ∃ front chars, ofLines n lines =
        front ++ [lineEnd .endOfInput (n + (lines.length - 1)) chars] ∧
      ∀ scanned ∈ front, scanned.token.kind ≠ .endOfInput := by
  have inner : ∀ n chars, ∀ scanned ∈ ofLine n chars, scanned.token.kind ≠ .endOfInput := by
    intro n chars scanned member last
    have inside := isLineEnd_of_mem member
    rw [last] at inside
    cases inside
  fun_induction ofLines n lines with
  | case1 => exact absurd rfl nonempty
  | case2 n chars => exact ⟨ofLine n chars, chars, rfl, inner n chars⟩
  | case3 n chars rest more ih =>
      obtain ⟨front, last, split, others⟩ := ih more
      refine ⟨ofLine n chars ++ lineEnd .newline n chars :: front, last, ?_, ?_⟩
      · have size : 0 < rest.length := List.length_pos_iff.2 more
        have number : n + ((chars :: rest).length - 1) = n + 1 + (rest.length - 1) := by
          rw [List.length_cons]
          omega
        rw [split, number, List.append_assoc, List.cons_append]
      · intro scanned member
        obtain inside | other := List.mem_append.1 member
        · exact inner n chars scanned inside
        · obtain rfl | later := List.mem_cons.1 other
          · intro last
            cases last
          · exact others scanned later

/-- Every line but the last has a newline. -/
theorem newlines_ofLines (n : Nat) (lines : List (List Char)) :
    ((ofLines n lines).filter (·.token.kind = .newline)).map (·.token.span.line) =
      List.range' n (lines.length - 1) := by
  have inner : ∀ n chars, (ofLine n chars).filter (·.token.kind = .newline) = [] := by
    intro n chars
    refine List.filter_eq_nil_iff.2 ?_
    intro scanned member newline
    have inside := isLineEnd_of_mem member
    rw [of_decide_eq_true newline] at inside
    cases inside
  fun_induction ofLines n lines with
  | case1 => rfl
  | case2 n chars =>
      rw [List.filter_append, inner]
      rfl
  | case3 n chars rest more ih =>
      have size : (chars :: rest).length - 1 = rest.length - 1 + 1 := by
        have some : 0 < rest.length := List.length_pos_iff.2 more
        rw [List.length_cons]
        omega
      rw [List.filter_append, inner, List.nil_append, size, List.range'_succ, ← ih]
      rfl

end Scanned

/-! ## Whole texts -/

/-- Whether some tokens cover a line up to a comment at its end: each of its characters
is a space, tab or carriage return, under one of the tokens or in the comment, which they
stay clear of. -/
def Token.Covers (tokens : List Token) (chars : List Char) : Prop :=
  ∃ stop ≤ chars.length,
    (chars.drop stop = [] ∨ ['/', '/'] <+: chars.drop stop) ∧
    (∀ token ∈ tokens, token.span.endCol ≤ stop) ∧
    ∀ i c, i < stop → chars[i]? = some c → c ∈ [' ', '\t', '\r'] ∨
      ∃ token ∈ tokens, token.span.startCol ≤ i + 1 ∧ i + 1 ≤ token.span.endCol

namespace Source

/-- What is wrong with a token, by what is written on its line. -/
def remark? (source : Source) (token : Token) : Option Remark :=
  let chars := (source.lines[token.span.line - 1]?).getD []
  (token.kind.flaw? (token.span.slice chars)).map (⟨·, token.span⟩)

/-- The tokens inside a line, of the given number less one. -/
def inner (tokens : List Token) (n : Nat) : List Token :=
  tokens.filter fun token => token.span.line = n + 1 ∧ token.kind.isLineEnd = false

/-- Whether a source splits into some tokens, with nothing lost. Its text is its lines,
with a newline token behind each but the last and the end of input behind that one; the
other tokens are over what they are written as, and those of a line cover it. -/
structure IsSplit (source : Source) (tokens : List Token) : Prop where
  text : ['\n'].intercalate source.lines = source.text.toList
  lineCount : source.lineCount = source.text.toList.count '\n' + 1
  newlines : (tokens.filter (·.kind = .newline)).map (·.span.line) =
    List.range' 1 (source.text.toList.count '\n')
  last : ∃ front token, tokens = front ++ [token] ∧ token.kind = .endOfInput ∧
    token.span.line = source.lineCount ∧ ∀ other ∈ front, other.kind ≠ .endOfInput
  placed : ∀ token ∈ tokens, ∃ n chars, source.lines[n]? = some chars ∧
    token.span.line = n + 1 ∧ (token.kind.isLineEnd = false → token.IsOn chars) ∧
    (token.kind.isLineEnd = true → token.span = .point (n + 1) (chars.length + 1))
  ordered : tokens.Pairwise fun a b => a.span.IsBefore b.span
  covered : ∀ n chars, source.lines[n]? = some chars → Token.Covers (inner tokens n) chars
  remarks : source.scanRemarks = tokens.filterMap source.remark?

/-- There is one line more than there are newline characters. -/
theorem length_splitOn (chars : List Char) :
    (chars.splitOn '\n').length = chars.count '\n' + 1 := by
  induction chars with
  | nil => rfl
  | cons c rest ih =>
      rw [List.splitOn_cons_eq_if_modifyHead, List.count_cons]
      by_cases newline : c = '\n'
      · simp [newline, ih]
      · simp [newline, ih]

variable {source : Source} {scanned : Scanned}

theorem exists_of_mem_scan (h : scanned ∈ source.scan) :
    ∃ n chars, source.lines[n]? = some chars ∧ (scanned ∈ Scanned.ofLine (n + 1) chars ∨
      ∃ ending, ending.isLineEnd = true ∧ scanned = Scanned.lineEnd ending (n + 1) chars) := by
  rw [scan_eq] at h
  obtain ⟨n, chars, there, place⟩ := Scanned.exists_of_mem_ofLines h
  rw [Nat.add_comm 1 n] at place
  exact ⟨n, chars, there, place⟩

/-- What the scan remarks is what can be read off the tokens. -/
theorem remark?_eq (h : scanned ∈ source.scan) : scanned.remark? = source.remark? scanned.token := by
  obtain ⟨n, chars, there, inside | ⟨ending, ends, rfl⟩⟩ := exists_of_mem_scan h
  · rw [Scanned.remark?, (Scanned.isOn_of_mem inside).2, remark?, Scanned.line_of_mem inside,
      Nat.add_sub_cancel, there]
    rfl
  · cases ending <;> first | rfl | cases ends

/-- The tokens inside a line are those of the line. -/
theorem mem_inner {n : Nat} {chars : List Char} (there : source.lines[n]? = some chars)
    {token : Token} :
    token ∈ inner source.tokens n ↔ ∃ scanned ∈ Scanned.ofLine (n + 1) chars,
      scanned.token = token := by
  rw [inner, List.mem_filter, tokens, List.mem_map, decide_eq_true_eq]
  constructor
  · rintro ⟨⟨scanned, member, rfl⟩, line, inLine⟩
    obtain ⟨m, found, here, inside | ⟨ending, ends, rfl⟩⟩ := exists_of_mem_scan member
    · have same : m = n := by
        rw [Scanned.line_of_mem inside] at line
        exact Nat.succ.inj line
      subst same
      obtain rfl := Option.some.inj (here.symm.trans there)
      exact ⟨scanned, inside, rfl⟩
    · exact absurd inLine (by simp [Scanned.lineEnd, ends])
  · rintro ⟨scanned, member, rfl⟩
    refine ⟨⟨scanned, ?_, rfl⟩, Scanned.line_of_mem member, Scanned.isLineEnd_of_mem member⟩
    rw [scan_eq]
    refine Scanned.mem_ofLines_of_mem there ?_
    rwa [Nat.add_comm 1 n]

/-- The tokens of a line cover it. -/
theorem covers_inner {n : Nat} {chars : List Char} (there : source.lines[n]? = some chars) :
    Token.Covers (inner source.tokens n) chars := by
  obtain ⟨stop, account⟩ := Scanned.exists_accountsFor (n + 1) 1 0 chars (Nat.zero_le _)
  refine ⟨stop, account.inside, account.behind.imp_right Scanner.startsComment_iff.1, ?_, ?_⟩
  · intro token member
    obtain ⟨scanned, inside, rfl⟩ := (mem_inner there).1 member
    have before := account.before scanned inside
    omega
  · intro i c short here
    obtain gap | ⟨scanned, inside, under⟩ := account.covered i c (Nat.zero_le i) short here
    · exact .inl (Scanner.isGap_iff.1 gap)
    · exact .inr ⟨scanned.token, (mem_inner there).2 ⟨scanned, inside, rfl⟩, by omega⟩

/-- A source splits into its tokens, with nothing lost. -/
theorem isSplit_tokens (source : Source) : source.IsSplit source.tokens where
  text := by rw [source.lines_eq, List.intercalate_splitOn]
  lineCount := by rw [Source.lineCount, source.lines_eq, length_splitOn]
  newlines := by
    rw [tokens, scan_eq, List.filter_map, List.map_map]
    refine (Scanned.newlines_ofLines 1 source.lines).trans ?_
    rw [source.lines_eq, length_splitOn, Nat.add_sub_cancel]
  last := by
    have nonempty : source.lines ≠ [] := by
      rw [source.lines_eq]
      exact List.splitOn_ne_nil '\n' _
    obtain ⟨front, chars, split, others⟩ := Scanned.ofLines_eq_concat (n := 1) nonempty
    have number : 1 + (source.lines.length - 1) = source.lineCount :=
      Nat.add_sub_cancel' (List.length_pos_iff.2 nonempty)
    rw [number] at split
    refine ⟨front.map (·.token), (Scanned.lineEnd .endOfInput source.lineCount chars).token,
      ?_, rfl, rfl, ?_⟩
    · rw [tokens, scan_eq, split, List.map_append]
      rfl
    · exact List.forall_mem_map.2 others
  placed := by
    intro token member
    obtain ⟨scanned, inScan, rfl⟩ := List.mem_map.1 member
    obtain ⟨n, chars, there, inside | ⟨ending, ends, rfl⟩⟩ := exists_of_mem_scan inScan
    · have inLine := Scanned.isLineEnd_of_mem inside
      exact ⟨n, chars, there, Scanned.line_of_mem inside,
        fun _ => (Scanned.isOn_of_mem inside).1, fun ends => absurd (inLine.symm.trans ends) nofun⟩
    · exact ⟨n, chars, there, rfl, fun inLine => absurd (inLine.symm.trans ends) nofun, fun _ => rfl⟩
  ordered := by
    rw [tokens, scan_eq, List.pairwise_map]
    exact Scanned.pairwise_ofLines 1 source.lines
  covered := fun n chars there => covers_inner there
  remarks := by
    rw [scanRemarks, tokens, List.filterMap_map]
    exact List.filterMap_congr fun scanned member => remark?_eq member

/-- Four lines with gaps of every kind and a comment, a literal that a quote of the other
kind closes and one that nothing closes, and a character that is foreign. -/
theorem isSplit_tokens_reference :
    let source := Source.ofText "star.pilot" "move();\t// go\r\n'a\" b\n'é\n@x1"
    source.IsSplit source.tokens ∧
      source.tokens =
        [⟨.primitive .move, ⟨1, 1, 4⟩⟩, ⟨.openParen, .point 1 5⟩, ⟨.closeParen, .point 1 6⟩,
          ⟨.semicolon, .point 1 7⟩, ⟨.newline, .point 1 15⟩, ⟨.quoted "a", ⟨2, 1, 3⟩⟩,
          ⟨.word "b", .point 2 5⟩, ⟨.newline, .point 2 6⟩, ⟨.quoted "é", ⟨3, 1, 2⟩⟩,
          ⟨.newline, .point 3 3⟩, ⟨.stray '@', .point 4 1⟩, ⟨.word "x1", ⟨4, 2, 3⟩⟩,
          ⟨.endOfInput, .point 4 4⟩] ∧
      source.scanRemarks =
        [⟨.unterminatedString, ⟨3, 1, 2⟩⟩, ⟨.strayCharacter '@', .point 4 1⟩] := by
  intro source
  exact ⟨isSplit_tokens source, by decide +kernel, by decide +kernel⟩

end Source

end Rocket

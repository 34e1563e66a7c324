import Mathlib
import Rocket.Proofs.Reading.Statement
import Rocket.Proofs.Reading.Whole

/-!
# Strict reading

Read strictly, a source has a program exactly if every line of it is empty or a
statement of the grammar. The program then consists of what these statements stand
for.

## Implementation notes

A line is judged by the kinds of its tokens. A string literal without its closing
quote is a token like any other, but takes the rest of its line, so that no
semicolon can follow it; this is why the kinds suffice.
-/

namespace Rocket

namespace Grammar

open Token (Kind)

/-- The kinds that a line without a mistake may have. -/
def IsLine (kinds : List Kind) : Prop :=
  kinds = [] ∨ ∃ command, IsStatement kinds command

/-- A statement ends with a semicolon. -/
theorem getLast?_of_isStatement {kinds : List Kind} {command : Command}
    (h : IsStatement kinds command) : kinds.getLast? = some .semicolon := by
  cases h with
  | primitive p => rfl
  | loop numeral list =>
      rw [List.getLast?_append]
      rfl

/-- Tokens of statements have a first and a last one. -/
theorem exists_isSpanOf {tokens : List Token} (nonempty : tokens ≠ []) :
    ∃ span, IsSpanOf tokens span := by
  obtain ⟨first, rest, rfl⟩ := List.exists_cons_of_ne_nil nonempty
  exact ⟨_, isSpanOf_cons_iff.2 rfl⟩

theorem ne_nil_of_isStatement {kinds : List Kind} {command : Command}
    (h : IsStatement kinds command) : kinds ≠ [] := by
  rintro rfl
  cases h

/-- The kinds of a line stand for one command at most. -/
theorem isStatement_unique {kinds : List Kind} {command other : Command}
    (h : IsStatement kinds command) (h' : IsStatement kinds other) : command = other := by
  have regular := isRegular_of_isStatement h
  let line : Line := ⟨kinds.map (⟨·, .point 1 1⟩), ⟨.endOfInput, .point 1 1⟩⟩
  have same : line.tokens.map (·.kind) = kinds := by simp [line, Function.comp_def]
  have nonempty : line.tokens ≠ [] := by simpa [line] using ne_nil_of_isStatement h
  obtain ⟨span, covers⟩ := exists_isSpanOf nonempty
  rw [← same] at h h' regular
  have first : Line.read (.ofText "" "") line = pure ⟨command, span⟩ :=
    (read_eq_pure_iff regular).2 ⟨h, covers⟩
  have second : Line.read (.ofText "" "") line = pure ⟨other, span⟩ :=
    (read_eq_pure_iff regular).2 ⟨h', covers⟩
  rw [first, Reading.pure_inj] at second
  exact (Statement.mk.inj second).1

/-! ## One line -/

section OneLine

variable {source : Source} {ending : Kind} {n : Nat} {chars : List Char}

theorem exists_of_mem_ofChars {token : Token} (h : token ∈ (Line.ofChars ending n chars).tokens) :
    ∃ scanned ∈ Scanned.ofLine n chars, scanned.token = token :=
  List.mem_map.1 h

theorem line_of_mem_ofChars {token : Token} (h : token ∈ (Line.ofChars ending n chars).tokens) :
    token.span.line = n := by
  obtain ⟨scanned, member, rfl⟩ := exists_of_mem_ofChars h
  exact Scanned.line_of_mem member

/-- If nothing is remarked on the characters of a line, its tokens are regular. -/
theorem isRegular_of_clean (clean : Scanned.lineRemarks n chars = []) :
    ∀ kind ∈ (Line.ofChars ending n chars).tokens.map (·.kind), kind.IsRegular := by
  intro kind member
  obtain ⟨token, inLine, rfl⟩ := List.mem_map.1 member
  obtain ⟨scanned, found, rfl⟩ := exists_of_mem_ofChars inLine
  have silent := List.filterMap_eq_nil_iff.1 clean scanned found
  have noProblem : scanned.problem? = none := by simpa [Scanned.remark?] using silent
  exact Scanned.isRegular_of_mem found (Scanned.isStray_of_mem found noProblem)

/-- If the kinds of a line are those of a statement, nothing is remarked on its
characters. -/
theorem clean_of_isStatement {command : Command}
    (h : IsStatement ((Line.ofChars ending n chars).tokens.map (·.kind)) command) :
    Scanned.lineRemarks n chars = [] := by
  rw [Scanned.lineRemarks, List.filterMap_eq_nil_iff]
  intro scanned member
  by_cases clean : scanned.problem? = none
  · simp [Scanned.remark?, clean]
  · have kind : scanned.token.kind ∈ (Line.ofChars ending n chars).tokens.map (·.kind) :=
      List.mem_map_of_mem (List.mem_map_of_mem member)
    have regular := isRegular_of_isStatement h _ kind
    obtain stray | ⟨text, front, quoted, split⟩ := Scanned.isStray_or_last_of_mem member clean
    · rw [Kind.isStray_of_isRegular regular] at stray
      exact absurd stray Bool.false_ne_true
    · have last := getLast?_of_isStatement h
      rw [Line.ofChars, Scanned.ofLine, split] at last
      simp [quoted] at last

theorem line_of_isSpanOf {span : Span}
    (h : IsSpanOf (Line.ofChars ending n chars).tokens span) : span.line = n := by
  obtain ⟨first, last, head, tail, rfl⟩ := h
  have start := line_of_mem_ofChars (List.mem_of_head? head)
  have stop := line_of_mem_ofChars (List.mem_of_getLast? tail)
  rw [Span.merge_line, start, stop, Nat.min_self]

/-- What a line without a mistake is read as. -/
theorem read_of_isLine (source : Source)
    (h : IsLine ((Line.ofChars ending n chars).tokens.map (·.kind))) :
    (Line.ofChars ending n chars).tokens = [] ∧
        Line.read source (.ofChars ending n chars) = .fail [] ∨
      ∃ statement, Line.read source (.ofChars ending n chars) = pure statement ∧
        IsStatement ((Line.ofChars ending n chars).tokens.map (·.kind)) statement.command ∧
        IsSpanOf (Line.ofChars ending n chars).tokens statement.span := by
  obtain empty | ⟨command, statement⟩ := h
  · have none := List.map_eq_nil_iff.1 empty
    refine .inl ⟨none, ?_⟩
    rw [Line.read, none]
  · have nonempty : (Line.ofChars ending n chars).tokens ≠ [] := by
      intro none
      exact ne_nil_of_isStatement statement (List.map_eq_nil_iff.2 none)
    obtain ⟨span, covers⟩ := exists_isSpanOf nonempty
    have read : Line.read source (.ofChars ending n chars) = pure ⟨command, span⟩ :=
      (read_eq_pure_iff (isRegular_of_isStatement statement)).2 ⟨statement, covers⟩
    exact .inr ⟨_, read, statement, covers⟩

/-- A line is free of remarks exactly if it is empty or a statement. -/
theorem isLine_iff (source : Source) (last : ending.isLineEnd = true) :
    IsLine ((Line.ofChars ending n chars).tokens.map (·.kind)) ↔
      (Line.read source (.ofChars ending n chars)).remarks = [] ∧
        Scanned.lineRemarks n chars = [] := by
  constructor
  · intro h
    have silent : (Line.read source (.ofChars ending n chars)).remarks = [] := by
      obtain ⟨-, read⟩ | ⟨statement, read, -⟩ := read_of_isLine source h
      · rw [read]
        rfl
      · rw [read]
        rfl
    refine ⟨silent, ?_⟩
    obtain empty | ⟨command, statement⟩ := h
    · have none : Scanned.ofLine n chars = [] := by simpa [Line.ofChars] using empty
      rw [Scanned.lineRemarks, none]
      rfl
    · exact clean_of_isStatement statement
  · rintro ⟨silent, clean⟩
    by_cases empty : (Line.ofChars ending n chars).tokens = []
    · exact .inl (List.map_eq_nil_iff.2 empty)
    · have regular : ∀ kind ∈ (Line.ofChars ending n chars).tokens.map (·.kind), kind.IsRegular :=
        isRegular_of_clean clean
      have ended : (Line.ofChars ending n chars).stop.kind.isStray = false := by
        cases ending <;> first | rfl | exact absurd last Bool.false_ne_true
      obtain ⟨statement, read⟩ := explains_read ended regular empty silent
      exact .inr ⟨statement.command, ((read_eq_pure_iff regular).1 read).1⟩

end OneLine

end Grammar

/-! ## Whole sources -/

/-- The numbers of the lines that have tokens. -/
def Source.writtenLines (source : Source) : List Nat :=
  (List.range' 1 source.lineCount).filter fun n => source.kindsOf n ≠ []

namespace Parsed

open Grammar

variable {source : Source}

/-- What holds of all lines, in terms of the lines or of their numbers. -/
theorem forall_tokenLines_iff {P : List Token → Prop} :
    (∀ line ∈ source.tokenLines, P line.tokens) ↔
      ∀ n, 1 ≤ n → n ≤ source.lineCount → P (source.tokensOf n) := by
  have numbers := Source.map_number_tokenLines source
  constructor
  · intro all n first last
    have member : n ∈ source.tokenLines.map Line.number := by
      rw [numbers, List.mem_range'_1]
      omega
    obtain ⟨line, inSource, rfl⟩ := List.mem_map.1 member
    rw [← Source.tokens_of_mem inSource]
    exact all line inSource
  · intro all line inSource
    have member := List.mem_map_of_mem (f := Line.number) inSource
    rw [numbers, List.mem_range'_1] at member
    rw [Source.tokens_of_mem inSource]
    exact all line.number member.1 (by omega)

/-- Nothing is remarked on a source exactly if each of its lines is empty or a
statement. -/
theorem remarks_eq_nil_iff :
    remarks source = [] ↔ ∀ line ∈ source.tokenLines, IsLine (line.tokens.map (·.kind)) := by
  have lines : source.tokenLines = (source.lines.zipIdx 1).map fun piece =>
      .ofChars (Line.ending (1 + source.lines.length) piece.2) piece.2 piece.1 :=
    Line.ofLines_eq_map 1 source.lines
  rw [remarks_eq, List.append_eq_nil_iff, scanRemarks_eq, lines, List.flatMap_map,
    List.flatMap_eq_nil_iff, List.flatMap_eq_nil_iff, List.forall_mem_map]
  have last := Line.isLineEnd_ending (1 + source.lines.length)
  constructor
  · rintro ⟨silent, clean⟩ piece member
    exact (isLine_iff source (last _)).2 ⟨silent piece member, clean piece member⟩
  · intro all
    have each := fun piece member => (isLine_iff source (last _)).1 (all piece member)
    exact ⟨fun piece member => (each piece member).1, fun piece member => (each piece member).2⟩

/-- What a line of a source without remarks is read as. -/
theorem read_of_mem {line : Line} (h : line ∈ source.tokenLines)
    (accepted : IsLine (line.tokens.map (·.kind))) :
    source.kindsOf line.number = [] ∧ Line.read source line = .fail [] ∨
      ∃ statement, Line.read source line = pure statement ∧
        IsStatement (source.kindsOf line.number) statement.command ∧
        statement.span.line = line.number := by
  have kinds : source.kindsOf line.number = line.tokens.map (·.kind) := by
    rw [Source.kindsOf, Source.tokens_of_mem h]
  rw [Source.tokenLines, Line.ofLines_eq_map] at h
  obtain ⟨⟨chars, n⟩, -, rfl⟩ := List.mem_map.1 h
  rw [kinds]
  obtain ⟨empty, read⟩ | ⟨statement, read, fits, covers⟩ := read_of_isLine source accepted
  · exact .inl ⟨List.map_eq_nil_iff.2 empty, read⟩
  · exact .inr ⟨statement, read, fits, line_of_isSpanOf covers⟩

/-- The statements of a source without remarks stand on the lines that have tokens, one
on each, in order. -/
theorem lines_kept (clean : remarks source = []) :
    (kept source).map (·.span.line) = source.writtenLines := by
  have accepted := remarks_eq_nil_iff.1 clean
  have each : ∀ line ∈ source.tokenLines,
      (Line.read source line).value?.map (·.span.line) =
        Option.guard (fun n => source.kindsOf n ≠ []) line.number := by
    intro line member
    obtain ⟨empty, read⟩ | ⟨statement, read, fits, sameLine⟩ :=
      read_of_mem member (accepted line member)
    · simp [read, Reading.fail, Option.guard, empty]
    · simp [read, Option.guard, ne_nil_of_isStatement fits, sameLine]
  calc (kept source).map (·.span.line)
      = source.tokenLines.filterMap fun line =>
          (Line.read source line).value?.map (·.span.line) := by
        rw [kept_eq, List.map_filterMap]
    _ = source.tokenLines.filterMap fun line =>
          Option.guard (fun n => source.kindsOf n ≠ []) line.number := List.filterMap_congr each
    _ = (source.tokenLines.map Line.number).filterMap
          (Option.guard fun n => source.kindsOf n ≠ []) := by
        rw [List.filterMap_map]
        rfl
    _ = source.writtenLines := by
        rw [Source.map_number_tokenLines, List.filterMap_eq_filter]
        rfl

/-- Each statement of a source without remarks is what the kinds of its line stand for. -/
theorem isStatement_of_mem_kept (clean : remarks source = []) {statement : Statement}
    (h : statement ∈ kept source) :
    IsStatement (source.kindsOf statement.span.line) statement.command := by
  rw [kept_eq] at h
  obtain ⟨line, member, value⟩ := List.mem_filterMap.1 h
  have accepted := remarks_eq_nil_iff.1 clean line member
  obtain ⟨-, read⟩ | ⟨found, read, fits, sameLine⟩ := read_of_mem member accepted
  · simp [read, Reading.fail] at value
  · rw [read, Reading.value?_pure] at value
    obtain rfl := Option.some.inj value
    rwa [sameLine]

/-- Read strictly, a text has a program exactly if each of its lines is empty or a
statement of the grammar. The statements of the program are those of the lines that
have tokens, in order, each with the only command that the kinds of its line stand
for. -/
theorem strict_iff_isLine (name text : String) :
    let source := Source.ofText name text
    ((∃ program, (ofSource source .strict).program? = some program) ↔
        ∀ n, 1 ≤ n → n ≤ source.lineCount → IsLine (source.kindsOf n)) ∧
      ∀ program, (ofSource source .strict).program? = some program →
        program.statements.map (·.span.line) = source.writtenLines ∧
          ∀ statement ∈ program.statements, ∀ command,
            IsStatement (source.kindsOf statement.span.line) command ↔
              command = statement.command := by
  intro source
  have accepted : remarks source = [] ↔
      ∀ n, 1 ≤ n → n ≤ source.lineCount → IsLine ((source.tokensOf n).map (·.kind)) :=
    remarks_eq_nil_iff.trans
      (forall_tokenLines_iff (P := fun tokens => IsLine (tokens.map (·.kind))))
  constructor
  · have clean : (∃ program, (ofSource source .strict).program? = some program) ↔
        remarks source = [] := by
      constructor
      · rintro ⟨program, h⟩
        exact (program?_strict_eq_some_iff.1 h).1
      · intro h
        exact ⟨_, program?_strict_eq_some_iff.2 ⟨h, rfl⟩⟩
    exact clean.trans accepted
  · intro program h
    obtain ⟨clean, rfl⟩ := program?_strict_eq_some_iff.1 h
    refine ⟨lines_kept clean, ?_⟩
    intro statement member command
    have own := isStatement_of_mem_kept clean member
    constructor
    · intro other
      exact isStatement_unique other own
    · rintro rfl
      exact own

end Parsed

end Rocket

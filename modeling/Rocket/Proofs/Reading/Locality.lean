import Mathlib
import Rocket.Proofs.Reading.Alike
import Rocket.Proofs.Reading.Statement
import Rocket.Proofs.Reading.Whole

/-!
# Reading is local to lines

What a line contributes to a program and to the findings depends on its characters
alone. A text put together from two texts is therefore read as what its parts are
read as, with the statements of the second part moved down.

## Implementation notes

Moving a line down moves the places of its tokens and leaves their kinds. The last
line of the first part is ended by a newline in the whole and by the end of input on
its own, but a line is read alike whichever token ends it.
-/

namespace Rocket

open Token (Kind)

/-! ## Moving down -/

namespace Span

/-- The same columns `k` lines below. -/
def down (k : Nat) (span : Span) : Span :=
  ⟨span.line + k, span.startCol, span.endCol⟩

/-- Spans that are moved together cover the same, moved. -/
theorem merge_down (k : Nat) (a b : Span) : (a.down k).merge (b.down k) = (a.merge b).down k := by
  have same : (a.down k).line = (b.down k).line ↔ a.line = b.line := by
    simp only [down]
    omega
  have before : (a.down k).line < (b.down k).line ↔ a.line < b.line := by
    simp only [down]
    omega
  simp only [merge, same, before]
  split
  · rfl
  · split <;> rfl

end Span

/-- The same token `k` lines below. -/
def Token.down (k : Nat) (token : Token) : Token :=
  ⟨token.kind, token.span.down k⟩

/-- The same statement `k` lines below. -/
def Statement.down (k : Nat) (statement : Statement) : Statement :=
  ⟨statement.command, statement.span.down k⟩

theorem Statement.down_zero : Statement.down 0 = id := rfl

theorem Statement.down_add (j k : Nat) :
    Statement.down (j + k) = Statement.down j ∘ Statement.down k := by
  funext statement
  simp only [Function.comp_apply, down, Span.down, Nat.add_assoc, Nat.add_comm j]

namespace Scanned

/-- The same token and problem `k` lines below. -/
def down (k : Nat) (scanned : Scanned) : Scanned :=
  ⟨scanned.token.down k, scanned.problem?⟩

/-- Scanning does not depend on the number of the line. -/
theorem ofChars_down (k line col skip : Nat) (chars : List Char) :
    ofChars (line + k) col skip chars = (ofChars line col skip chars).map (down k) := by
  fun_induction ofChars line col skip chars with
  | case1 => rfl
  | case2 col skip c chars ih => rw [ofChars, ih]
  | case3 col c chars gap ih => rw [ofChars, if_pos gap, ih]
  | case4 col c chars gap comment => rw [ofChars, if_neg gap, if_pos comment, List.map_nil]
  | case5 col c chars gap comment found ih =>
      rw [ofChars, if_neg gap, if_neg comment, List.map_cons, ← ih]
      rfl

theorem codes_lineRemarks_down (k n : Nat) (chars : List Char) :
    Remark.codes (lineRemarks (n + k) chars) = Remark.codes (lineRemarks n chars) := by
  rw [lineRemarks, lineRemarks, ofLine, ofLine, ofChars_down, List.filterMap_map, Remark.codes,
    Remark.codes, List.map_filterMap, List.map_filterMap]
  congr 1
  funext scanned
  rw [Function.comp_apply, remark?, remark?, Option.map_map, Option.map_map]
  rfl

end Scanned

/-! ## One line -/

namespace Line

/-- The statement of a line spans its tokens. -/
theorem isSpanOf_of_read {source : Source} {line : Line} {statement : Statement}
    (h : (read source line).value? = some statement) :
    Grammar.IsSpanOf line.tokens statement.span := by
  obtain ⟨tokens, stop⟩ := line
  cases tokens with
  | nil => simp [read, Reading.fail] at h
  | cons first tokens =>
      change (readStatement source stop first tokens).value? = some statement at h
      rw [readStatement] at h
      obtain ⟨⟨command, tail⟩, -, ended⟩ := Reading.value?_bind_eq_some_iff.1 h
      obtain ⟨_, -, done⟩ := Reading.value?_bind_eq_some_iff.1 ended
      obtain rfl := Option.some.inj done
      exact Grammar.isSpanOf_cons_iff.2 rfl

theorem tokens_down (ending ending' : Kind) (k n : Nat) (chars : List Char) :
    (ofChars ending' (n + k) chars).tokens =
      (ofChars ending n chars).tokens.map (Token.down k) := by
  simp only [ofChars, Scanned.ofLine, Scanned.ofChars_down, List.map_map]
  rfl

theorem isSpanOf_down {tokens : List Token} {span span' : Span} {k : Nat}
    (h : Grammar.IsSpanOf tokens span)
    (h' : Grammar.IsSpanOf (tokens.map (Token.down k)) span') : span' = span.down k := by
  obtain ⟨first, last, head, tail, rfl⟩ := h
  obtain ⟨first', last', head', tail', rfl⟩ := h'
  rw [List.head?_map, head] at head'
  rw [List.getLast?_map, tail] at tail'
  obtain rfl := Option.some.inj head'
  obtain rfl := Option.some.inj tail'
  exact Span.merge_down k first.span last.span

/-- A line that is moved down, to whatever source, is read as before and its statement
is moved with it. -/
theorem alike_down {source source' : Source} {ending ending' : Kind}
    (last : ending.isLineEnd = true) (last' : ending'.isLineEnd = true) (k n : Nat)
    (chars : List Char) :
    Reading.Alike (fun statement other => other = statement.down k)
      (read source (ofChars ending n chars)) (read source' (ofChars ending' (n + k) chars)) := by
  have moved := tokens_down ending ending' k n chars
  have kinds :
      SameKinds (ofChars ending n chars).tokens (ofChars ending' (n + k) chars).tokens := by
    rw [SameKinds, moved, List.map_map]
    rfl
  have ended := (Kind.isStray_of_isLineEnd last).trans (Kind.isStray_of_isLineEnd last').symm
  have alike : Reading.Alike (fun statement other => statement.command = other.command)
      (read source (ofChars ending n chars)) (read source' (ofChars ending' (n + k) chars)) :=
    alike_read ended kinds.akin
  obtain ⟨codes, values⟩ := alike
  refine ⟨codes, ?_⟩
  generalize value : (read source (ofChars ending n chars)).value? = value? at values
  generalize value' : (read source' (ofChars ending' (n + k) chars)).value? = value?' at values
  cases values with
  | none => exact .none
  | @some statement other same =>
      have span := isSpanOf_of_read value
      have span' := isSpanOf_of_read value'
      rw [moved] at span'
      have place := isSpanOf_down span span'
      refine .some ?_
      obtain ⟨command, span⟩ := statement
      obtain ⟨command', span'⟩ := other
      obtain rfl := same
      obtain rfl := place
      rfl

/-- The line of the given characters as the only line of a source. -/
def alone (chars : List Char) : Line :=
  ofChars .endOfInput 1 chars

/-- The statement that a line contributes if it is the first one. -/
def statement? (chars : List Char) : Option Statement :=
  (read (.ofText "" "") (alone chars)).value?

/-- How many remarks a line gives rise to. -/
def remarkCount (chars : List Char) : Nat :=
  (read (.ofText "" "") (alone chars)).remarks.length + (Scanned.lineRemarks 1 chars).length

section Place

variable (source : Source) {ending : Kind} (last : ending.isLineEnd = true) (i : Nat)
  (chars : List Char)
include last

/-- A line is read alike wherever it stands. -/
theorem alike_alone :
    Reading.Alike (fun statement other => other = Statement.down i statement)
      (read (.ofText "" "") (alone chars)) (read source (ofChars ending (i + 1) chars)) := by
  rw [alone, Nat.add_comm i 1]
  exact alike_down rfl last i 1 chars

/-- A line contributes its statement, moved to its place. -/
theorem value?_read :
    (read source (ofChars ending (i + 1) chars)).value? =
      (statement? chars).map (Statement.down i) := by
  have values := (alike_alone source last i chars).values
  rw [statement?]
  generalize (read (.ofText "" "") (alone chars)).value? = own at values ⊢
  generalize (read source (ofChars ending (i + 1) chars)).value? = placed at values ⊢
  cases values with
  | none => rfl
  | some moved => rw [moved, Option.map_some]

/-- A line contributes as many remarks as it gives rise to on its own. -/
theorem length_remarks_read :
    (read source (ofChars ending (i + 1) chars)).remarks.length
        + (Scanned.lineRemarks (i + 1) chars).length =
      remarkCount chars := by
  have readCodes := congrArg List.length (alike_alone source last i chars).codes
  have scanCodes := congrArg List.length (Scanned.codes_lineRemarks_down i 1 chars)
  simp only [Remark.codes, List.length_map] at readCodes scanCodes
  rw [remarkCount, readCodes, Nat.add_comm i 1, scanCodes, Nat.add_comm 1 i]

end Place

end Line

/-! ## Whole sources -/

namespace Parsed

/-- What is counted in two lists at once is counted piece by piece. -/
theorem length_flatMap_add {α β γ : Type} {pieces : List α} {f : α → List β} {g : α → List γ}
    {count : α → Nat} (h : ∀ piece ∈ pieces, (f piece).length + (g piece).length = count piece) :
    (pieces.flatMap f).length + (pieces.flatMap g).length = (pieces.map count).sum := by
  induction pieces with
  | nil => rfl
  | cons piece rest ih =>
      rw [List.forall_mem_cons] at h
      have tail := ih h.2
      rw [List.flatMap_cons, List.flatMap_cons, List.length_append, List.length_append,
        List.map_cons, List.sum_cons, ← h.1, ← tail]
      omega

section Lines

variable (source : Source)

/-- The statements of a source are those of its lines, each at its place. -/
theorem kept_eq_lines :
    kept source = source.lines.zipIdx.flatMap fun (chars, i) =>
      (Line.statement? chars).toList.map (Statement.down i) := by
  rw [kept_eq, Source.tokenLines, Line.ofLines_eq_map, List.zipIdx_succ, List.filterMap_map,
    List.filterMap_map, List.filterMap_eq_flatMap_toList]
  apply List.flatMap_congr
  rintro ⟨chars, i⟩ -
  have ended := Line.isLineEnd_ending (1 + source.lines.length) (i + 1)
  rw [Function.comp_apply, Function.comp_apply, Line.value?_read source ended]
  dsimp only
  cases Line.statement? chars <;> rfl

/-- The remarks on a source are as many as those on its lines. -/
theorem length_remarks :
    (remarks source).length = (source.lines.map Line.remarkCount).sum := by
  have each : ∀ piece ∈ source.lines.zipIdx,
      (Line.read source (.ofChars (Line.ending (1 + source.lines.length) (piece.2 + 1))
          (piece.2 + 1) piece.1)).remarks.length
        + (Scanned.lineRemarks (piece.2 + 1) piece.1).length = Line.remarkCount piece.1 :=
    fun piece _ => Line.length_remarks_read source (Line.isLineEnd_ending _ _) piece.2 piece.1
  have pieces : source.lines.zipIdx.map (fun piece => Line.remarkCount piece.1) =
      source.lines.map Line.remarkCount := by
    rw [← Function.comp_def, ← List.map_map, List.zipIdx_map_fst]
  rw [remarks_eq, List.length_append, scanRemarks_eq, Source.tokenLines, Line.ofLines_eq_map,
    List.zipIdx_succ, List.map_map, List.flatMap_map, List.flatMap_map, ← pieces]
  exact length_flatMap_add each

end Lines

/-- The findings about a source are as many as its remarks, and all of one severity. -/
theorem totals_ofSource (source : Source) (mode : Mode) :
    (ofSource source mode).findings.totalErrors =
        (if mode = .strict then (remarks source).length else 0) ∧
      (ofSource source mode).findings.totalWarnings =
        (if mode = .permissive then (remarks source).length else 0) := by
  rw [findings_ofSource]
  cases mode <;> exact ⟨rfl, rfl⟩

/-! ## Parts of a text -/

section Parts

variable (name first second a b : String)

/-- The lines of two texts with a newline between them are the lines of both. -/
theorem lines_append :
    (Source.ofText name (a ++ "\n" ++ b)).lines =
      (Source.ofText first a).lines ++ (Source.ofText second b).lines := by
  have text : (a ++ "\n" ++ b).toList = a.toList ++ '\n' :: b.toList := by
    simp [String.toList_append]
  rw [Source.lines_ofText, text]
  exact List.splitOn_append_cons_self a.toList b.toList

theorem length_remarks_append :
    (remarks (.ofText name (a ++ "\n" ++ b))).length =
      (remarks (.ofText first a)).length + (remarks (.ofText second b)).length := by
  simp only [length_remarks]
  rw [lines_append name first second, List.map_append, List.sum_append]

theorem kept_append :
    kept (.ofText name (a ++ "\n" ++ b)) =
      kept (.ofText first a)
        ++ (kept (.ofText second b)).map (Statement.down (Source.ofText first a).lineCount) := by
  have below := List.zipIdx_eq_map_add (l := (Source.ofText second b).lines)
    (i := (Source.ofText first a).lines.length)
  simp only [kept_eq_lines]
  rw [lines_append name first second, List.zipIdx_append, List.flatMap_append, Nat.zero_add,
    below, List.flatMap_map, List.map_flatMap]
  congr 1
  apply List.flatMap_congr
  rintro ⟨chars, i⟩ -
  simp only [Source.lineCount, Statement.down_add, List.map_map]

/-- The programs of two texts are put one below the other. -/
theorem program?_append (mode : Mode) :
    (ofSource (.ofText name (a ++ "\n" ++ b)) mode).program? =
      (ofSource (.ofText first a) mode).program?.bind fun program =>
        (ofSource (.ofText second b) mode).program?.map fun below =>
          ⟨program.statements
            ++ below.statements.map (Statement.down (Source.ofText first a).lineCount)⟩ := by
  have size := length_remarks_append name first second a b
  simp only [program?_ofSource, ← List.length_pos_iff, size, kept_append name first second]
  by_cases above : mode = .strict ∧ 0 < (remarks (.ofText first a)).length
  · rw [if_pos above, if_pos ⟨above.1, by omega⟩, Option.bind_none]
  · rw [if_neg above, Option.bind_some]
    by_cases below : mode = .strict ∧ 0 < (remarks (.ofText second b)).length
    · rw [if_pos below, if_pos ⟨below.1, by omega⟩, Option.map_none]
    · have neither : ¬ (mode = .strict ∧ 0 < (remarks (.ofText first a)).length
          + (remarks (.ofText second b)).length) := by
        rintro ⟨strict, some⟩
        have none := not_and.1 above strict
        have none' := not_and.1 below strict
        omega
      rw [if_neg below, if_neg neither, Option.map_some]

end Parts

section Alone

variable (name : String) {chars : List Char} (free : '\n' ∉ chars)
include free

theorem lines_alone : (Source.ofText name (String.ofList chars)).lines = [chars] := by
  rw [Source.lines_ofText, String.toList_ofList]
  exact List.splitOn_eq_singleton free

theorem length_remarks_alone :
    (remarks (.ofText name (String.ofList chars))).length = Line.remarkCount chars := by
  rw [length_remarks, lines_alone name free, List.map_singleton,
    List.sum_singleton]

theorem kept_alone :
    kept (.ofText name (String.ofList chars)) = (Line.statement? chars).toList := by
  rw [kept_eq_lines, lines_alone name free]
  simp [Statement.down_zero]

end Alone

/-- What a text is read as, put together from what its lines are read as on their own. -/
structure IsSumOfLines (whole : Parsed) (lines : List Parsed) : Prop where
  errors : whole.findings.totalErrors = (lines.map (·.findings.totalErrors)).sum
  warnings : whole.findings.totalWarnings = (lines.map (·.findings.totalWarnings)).sum
  accepted : whole.program?.isSome ↔ ∀ line ∈ lines, line.program?.isSome
  statements : ∀ program, whole.program? = some program →
    program.statements = lines.zipIdx.flatMap fun (line, i) =>
      (line.program?.getD .empty).statements.map (Statement.down i)

/-- Whether a source has a program in a mode. -/
theorem isSome_program?_iff (source : Source) (mode : Mode) :
    (ofSource source mode).program?.isSome ↔ (mode = .strict → (remarks source).length = 0) := by
  rw [program?_ofSource, List.length_eq_zero_iff]
  split
  next refused => simp [refused]
  next accepted => simpa using accepted

theorem eq_of_program? {source : Source} {mode : Mode} {program : Program}
    (h : (ofSource source mode).program? = some program) : program = ⟨kept source⟩ := by
  rw [program?_ofSource] at h
  split at h
  · cases h
  · exact (Option.some.inj h).symm

section Sum

variable (name text : String) (mode : Mode)

/-- The line of a text, read on its own. -/
def alone (chars : List Char) : Parsed :=
  ofSource (.ofText name (String.ofList chars)) mode

variable {name text mode} {chars : List Char} (h : chars ∈ (Source.ofText name text).lines)
include h

theorem totals_alone :
    (alone name mode chars).findings.totalErrors =
        (if mode = .strict then Line.remarkCount chars else 0) ∧
      (alone name mode chars).findings.totalWarnings =
        (if mode = .permissive then Line.remarkCount chars else 0) := by
  rw [← length_remarks_alone name (Source.newline_notMem_of_mem_lines h)]
  exact totals_ofSource _ mode

theorem isSome_alone_iff :
    (alone name mode chars).program?.isSome ↔ (mode = .strict → Line.remarkCount chars = 0) := by
  rw [← length_remarks_alone name (Source.newline_notMem_of_mem_lines h)]
  exact isSome_program?_iff _ mode

theorem statements_alone (accepted : (alone name mode chars).program?.isSome) :
    ((alone name mode chars).program?.getD .empty).statements =
      (Line.statement? chars).toList := by
  obtain ⟨program, found⟩ := Option.isSome_iff_exists.1 accepted
  obtain rfl := eq_of_program? found
  rw [found, Option.getD_some, kept_alone name (Source.newline_notMem_of_mem_lines h)]

end Sum

/-- Counts that only matter on a condition add up to a sum that only matters on it. -/
theorem sum_ite {α : Type} (condition : Prop) [Decidable condition] (count : α → Nat)
    (pieces : List α) :
    (pieces.map fun piece => if condition then count piece else 0).sum =
      if condition then (pieces.map count).sum else 0 := by
  split
  · rfl
  · simp

/-- A text is read as what its lines are read as on their own. -/
theorem isSumOfLines (name text : String) (mode : Mode) :
    (ofSource (.ofText name text) mode).IsSumOfLines
      ((Source.ofText name text).lines.map (alone name mode)) := by
  have count := length_remarks (.ofText name text)
  obtain ⟨errors, warnings⟩ := totals_ofSource (.ofText name text) mode
  have accepted : (ofSource (.ofText name text) mode).program?.isSome ↔
      ∀ line ∈ (Source.ofText name text).lines.map (alone name mode), line.program?.isSome := by
    rw [isSome_program?_iff, count, List.sum_eq_zero_iff_forall_eq_nat, List.forall_mem_map,
      List.forall_mem_map]
    constructor
    · intro none chars member
      exact (isSome_alone_iff member).2 fun strict => none strict chars member
    · intro all strict chars member
      exact (isSome_alone_iff member).1 (all chars member) strict
  refine ⟨?_, ?_, accepted, ?_⟩
  · rw [errors, count, ← sum_ite, List.map_map]
    congr 1
    exact List.map_congr_left fun chars member => (totals_alone member).1.symm
  · rw [warnings, count, ← sum_ite, List.map_map]
    congr 1
    exact List.map_congr_left fun chars member => (totals_alone member).2.symm
  · intro program found
    have everywhere := accepted.1 (Option.isSome_iff_exists.2 ⟨program, found⟩)
    rw [List.forall_mem_map] at everywhere
    rw [eq_of_program? found, kept_eq_lines, List.zipIdx_map, List.flatMap_map]
    apply List.flatMap_congr
    rintro ⟨chars, i⟩ member
    have inText := List.fst_mem_of_mem_zipIdx member
    simp only [Prod.map_apply, id_eq, statements_alone inText (everywhere chars inText)]

/-- Reading is local to lines. Of two texts with a newline between them, the findings
add up and the programs, of which there is one exactly if both parts have one, are put
one below the other. In the same way the whole is the sum of its lines, whatever is
wrong with any of them. -/
theorem ofSource_append (name first second : String) (mode : Mode) (a b : String) :
    let whole := ofSource (.ofText name (a ++ "\n" ++ b)) mode
    let front := ofSource (.ofText first a) mode
    let back := ofSource (.ofText second b) mode
    whole.findings.totalErrors = front.findings.totalErrors + back.findings.totalErrors ∧
      whole.findings.totalWarnings = front.findings.totalWarnings + back.findings.totalWarnings ∧
      whole.program? = (front.program?.bind fun program => back.program?.map fun below =>
        ⟨program.statements
          ++ below.statements.map (Statement.down (Source.ofText first a).lineCount)⟩) ∧
      (mode = .permissive → front.program?.isSome ∧ back.program?.isSome) ∧
      whole.IsSumOfLines ((Source.ofText name (a ++ "\n" ++ b)).lines.map (alone name mode)) := by
  intro whole front back
  have size := length_remarks_append name first second a b
  refine ⟨?_, ?_, program?_append name first second a b mode, ?_, isSumOfLines _ _ _⟩
  · rw [(totals_ofSource _ mode).1, (totals_ofSource _ mode).1, (totals_ofSource _ mode).1, size]
    split <;> rfl
  · rw [(totals_ofSource _ mode).2, (totals_ofSource _ mode).2, (totals_ofSource _ mode).2, size]
    split <;> rfl
  · rintro rfl
    exact ⟨(isSome_program?_iff _ _).2 nofun, (isSome_program?_iff _ _).2 nofun⟩

end Parsed

end Rocket

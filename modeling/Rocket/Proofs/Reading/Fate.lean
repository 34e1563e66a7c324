import Rocket.Proofs.Reading.Accounted
import Rocket.Proofs.Reading.Whole

/-!
# The fate of a line

A line of a source is blank, or it is kept as a statement, or it is left out. Which of
these it is can be seen from the statements and the findings on it: a line that is left out
has a finding, a line that is kept has none but on characters and entries that were passed
over, and a blank line has none at all.

## Implementation notes

The statements of a source and its remarks come line by line, and each of them carries the
number of the line it comes from. What carries the number of a line is therefore what comes
from it.
-/

namespace Rocket

/-- What can become of a line. -/
inductive Fate where
  /-- There is nothing on the line. -/
  | blank
  /-- The line is a statement of the program, perhaps without some of its entries. -/
  | kept
  /-- The line is not in the program. -/
  | dropped
  deriving DecidableEq

/-- Whether a line with some tokens, with some statements of the program and some codes of
findings on it, has met with its fate. -/
def Fate.Meets (tokens : List Token) (statements : List Statement) (codes : List Code) :
    Fate → Prop
  | .blank => tokens = [] ∧ statements = [] ∧ codes = []
  | .kept => tokens ≠ [] ∧ statements.length = 1 ∧
      ∀ code ∈ codes, code = .strayCharacter ∨ code = .unknownEntry ∨ code = .nestedLoop
  | .dropped => tokens ≠ [] ∧ statements = [] ∧ codes ≠ [] ∧ codes.countP Code.dropsLine ≤ 1

namespace Fate

variable {tokens : List Token} {statements : List Statement} {codes : List Code}

instance (fate : Fate) : Decidable (fate.Meets tokens statements codes) := by
  cases fate <;> exact inferInstanceAs (Decidable (_ ∧ _))

/-- The fate of a line shows in the statements and the findings on it. -/
theorem Meets.eq {fate : Fate} (h : fate.Meets tokens statements codes) :
    fate = if statements ≠ [] then .kept else if codes = [] then .blank else .dropped := by
  cases fate with
  | blank => simp [h.2.1, h.2.2]
  | kept =>
      have some : statements ≠ [] := by
        rintro rfl
        cases h.2.1
      rw [if_pos some]
  | dropped => simp [h.2.1, h.2.2.1]

end Fate

/-! ## One line -/

namespace Scanned

variable {n : Nat} {chars : List Char} {remark : Remark} {scanned : Scanned}

/-- The remarks on the characters of a line are on stray characters, and perhaps on a
string literal that is its last token. -/
theorem code_of_mem_lineRemarks (h : remark ∈ lineRemarks n chars) :
    remark.span.line = n ∧
      (remark.problem.code = .strayCharacter ∨
        remark.problem.code = .unterminatedString ∧
          ∃ scanned text, (ofLine n chars).getLast? = some scanned ∧
            scanned.token.kind = .quoted text) := by
  obtain ⟨scanned, member, found⟩ := List.mem_filterMap.1 h
  obtain ⟨problem, problem?, rfl⟩ := Option.map_eq_some_iff.1 found
  refine ⟨line_of_mem member, ?_⟩
  have last := isStray_or_last_of_mem member (by rw [problem?]; exact nofun)
  obtain ⟨⟨kind, span⟩, _⟩ := scanned
  obtain rfl := problem?
  obtain ⟨rest, more, sound⟩ := isSound_of_mem member
  cases sound with
  | stray c => exact .inl rfl
  | unterminated text =>
      obtain stray | ⟨text', front, kind, split⟩ := last
      · cases stray
      · exact .inr ⟨rfl, _, text', by rw [ofLine, split, List.getLast?_concat], kind⟩

/-- No remark on the characters of a line is a reason for leaving it out. -/
theorem countP_dropsLine_lineRemarks (n : Nat) (chars : List Char) :
    (lineRemarks n chars).countP (·.problem.code.dropsLine) = 0 := by
  rw [List.countP_eq_zero]
  intro remark member
  obtain ⟨-, stray | ⟨unterminated, -⟩⟩ := code_of_mem_lineRemarks member
  · rw [stray]
    exact Bool.false_ne_true
  · rw [unterminated]
    exact Bool.false_ne_true

/-- A stray character has a remark. -/
theorem lineRemarks_ne_nil (h : scanned ∈ ofLine n chars)
    (stray : scanned.token.kind.isStray = true) : lineRemarks n chars ≠ [] := by
  intro silent
  have none := List.filterMap_eq_nil_iff.1 silent scanned h
  have clean : scanned.problem? = .none := by simpa [remark?] using none
  rw [isStray_of_mem h clean] at stray
  cases stray

end Scanned

namespace Line

variable {source : Source} {ending : Token.Kind} {n : Nat} {chars : List Char}

/-- The tokens of a line lie on it, and stray characters have their remarks. -/
theorem within_ofChars (ending : Token.Kind) (n : Nat) (chars : List Char) :
    Within n (Scanned.lineRemarks n chars ≠ []) (ofChars ending n chars).tokens := by
  intro token member
  obtain ⟨scanned, inLine, rfl⟩ := List.mem_map.1 member
  exact ⟨Scanned.line_of_mem inLine, Scanned.lineRemarks_ne_nil inLine⟩

/-- A line that has tokens is accounted for. -/
theorem accounts_ofChars (source : Source) (last : ending.isLineEnd = true)
    (nonempty : (ofChars ending n chars).tokens ≠ []) :
    (read source (ofChars ending n chars)).Accounts n (Scanned.lineRemarks n chars ≠ [])
      fun statement => statement.span.line = n ∧
        ∃ token, (ofChars ending n chars).tokens.getLast? = some token ∧
          token.kind = .semicolon :=
  accounts_read ⟨rfl, Token.Kind.isStray_of_isLineEnd last⟩ (within_ofChars ending n chars)
    nonempty

/-- A line without tokens is read in silence. -/
theorem read_of_tokens_nil {line : Line} (empty : line.tokens = []) :
    read source line = .fail [] := by
  rw [read, empty]

/-- What is read of a line lies on it. -/
theorem line_of_read (source : Source) (last : ending.isLineEnd = true) (n : Nat)
    (chars : List Char) :
    (∀ remark ∈ (read source (ofChars ending n chars)).remarks, remark.span.line = n) ∧
      ∀ statement, (read source (ofChars ending n chars)).value? = some statement →
        statement.span.line = n := by
  by_cases empty : (ofChars ending n chars).tokens = []
  · rw [read_of_tokens_nil empty]
    refine ⟨List.forall_mem_nil _, fun statement value => ?_⟩
    simp [Reading.fail] at value
  · have accounts := accounts_ofChars source last empty
    exact ⟨accounts.here, fun statement value => (accounts.value statement value).1⟩

/-- A line that has tokens but is no statement is dropped. -/
theorem meets_dropped (last : ending.isLineEnd = true)
    (nonempty : (ofChars ending n chars).tokens ≠ [])
    (none : (read source (ofChars ending n chars)).value? = .none) :
    Fate.dropped.Meets (ofChars ending n chars).tokens []
      (((read source (ofChars ending n chars)).remarks ++ Scanned.lineRemarks n chars).map
        (·.problem.code)) := by
  have accounts := accounts_ofChars source last nonempty
  refine ⟨nonempty, rfl, ?_, ?_⟩
  · intro silent
    rw [List.map_eq_nil_iff, List.append_eq_nil_iff] at silent
    exact accounts.dropped none silent.1 silent.2
  · have once := accounts.once
    rw [List.countP_map, List.countP_append]
    exact (Scanned.countP_dropsLine_lineRemarks n chars).symm ▸ once

/-- A line that is a statement is kept. -/
theorem meets_kept {statement : Statement} (last : ending.isLineEnd = true)
    (nonempty : (ofChars ending n chars).tokens ≠ [])
    (value : (read source (ofChars ending n chars)).value? = some statement) :
    Fate.kept.Meets (ofChars ending n chars).tokens [statement]
      (((read source (ofChars ending n chars)).remarks ++ Scanned.lineRemarks n chars).map
        (·.problem.code)) := by
  have accounts := accounts_ofChars source last nonempty
  obtain ⟨-, token, final, semicolon⟩ := accounts.value statement value
  refine ⟨nonempty, rfl, List.forall_mem_map.2 (List.forall_mem_append.2 ⟨?_, ?_⟩)⟩
  · intro remark member
    have left := accounts.kept statement value remark member
    rw [Code.leavesEntryOut, decide_eq_true_iff] at left
    exact .inr (by simpa using left)
  · intro remark member
    obtain ⟨-, stray | ⟨-, scanned, text, found, quoted⟩⟩ :=
      Scanned.code_of_mem_lineRemarks member
    · exact .inl stray
    · -- The last token of the line is no semicolon then.
      rw [ofChars, List.getLast?_map, found, Option.map_some] at final
      obtain rfl := Option.some.inj final
      rw [quoted] at semicolon
      cases semicolon

/-- Each line meets with a fate. -/
theorem exists_meets (source : Source) (last : ending.isLineEnd = true) (n : Nat)
    (chars : List Char) :
    ∃ fate : Fate, fate.Meets (ofChars ending n chars).tokens
      (read source (ofChars ending n chars)).value?.toList
      (((read source (ofChars ending n chars)).remarks ++ Scanned.lineRemarks n chars).map
        (·.problem.code)) := by
  by_cases empty : (ofChars ending n chars).tokens = []
  · have silent : Scanned.lineRemarks n chars = [] := by
      rw [Scanned.lineRemarks, List.map_eq_nil_iff.1 empty]
      rfl
    rw [read_of_tokens_nil empty, silent]
    exact ⟨.blank, empty, rfl, rfl⟩
  · cases value : (read source (ofChars ending n chars)).value? with
    | none => exact ⟨.dropped, meets_dropped last empty value⟩
    | some statement => exact ⟨.kept, meets_kept last empty value⟩

end Line

/-! ## All lines -/

section Numbered

variable {α β : Type} {key : β → Nat} {f : α × Nat → List β}

/-- What comes from numbered things and carries their numbers comes from the one thing
whose number it carries. -/
theorem filter_flatMap_zipIdx (own : ∀ p, ∀ b ∈ f p, key b = p.2) {l : List α} {i : Nat} {a : α}
    (there : l[i]? = some a) (k : Nat) :
    ((l.zipIdx k).flatMap f).filter (fun b => key b = k + i) = f (a, k + i) := by
  induction l generalizing i k with
  | nil => simp at there
  | cons x xs ih =>
      rw [List.zipIdx_cons, List.flatMap_cons, List.filter_append]
      cases i with
      | zero =>
          obtain rfl := Option.some.inj there
          have first : (f (x, k)).filter (fun b => key b = k + 0) = f (x, k) := by
            rw [List.filter_eq_self]
            intro b member
            simp [own _ b member]
          have others : ((xs.zipIdx (k + 1)).flatMap f).filter (fun b => key b = k + 0) = [] := by
            rw [List.filter_eq_nil_iff]
            intro b member
            obtain ⟨p, inList, member⟩ := List.mem_flatMap.1 member
            have later := List.le_snd_of_mem_zipIdx inList
            simp only [own p b member, decide_eq_true_eq]
            omega
          rw [first, others, List.append_nil]
          rfl
      | succ i =>
          have first : (f (x, k)).filter (fun b => key b = k + (i + 1)) = [] := by
            rw [List.filter_eq_nil_iff]
            intro b member
            simp only [own _ b member, decide_eq_true_eq]
            omega
          have number : k + (i + 1) = k + 1 + i := by omega
          rw [first, List.nil_append, number]
          exact ih there (k + 1)

/-- Where one thing at most comes from each, the numbers of what comes from them are some of
theirs, in order. -/
theorem map_flatMap_sublist (own : ∀ p, ∀ b ∈ f p, key b = p.2)
    (single : ∀ p, (f p).length ≤ 1) (l : List (α × Nat)) :
    ((l.flatMap f).map key).Sublist (l.map Prod.snd) := by
  induction l with
  | nil => exact List.Sublist.refl _
  | cons p rest ih =>
      rw [List.flatMap_cons, List.map_append, List.map_cons]
      match found : f p with
      | [] => exact ih.cons _
      | [b] =>
          have same : key b = p.2 := own p b (by rw [found]; exact List.mem_cons_self)
          rw [List.map_singleton, same]
          exact ih.cons_cons _
      | _ :: _ :: _ =>
          have short := single p
          simp [found] at short

end Numbered

/-- All kept findings. -/
def Findings.all (fs : Findings) : List Finding :=
  fs.errors ++ fs.warnings

namespace Parsed

variable {source : Source} {n i : Nat} {chars : List Char}

/-- If there are not too many, the findings of a source are what there is to remark on it. -/
theorem all_findings (source : Source) (mode : Mode)
    (few : (ofSource source mode).findings.totalErrors +
      (ofSource source mode).findings.totalWarnings ≤ Findings.capacity) :
    (ofSource source mode).findings.all = (remarks source).map (.ofRemark source mode) := by
  rw [findings_ofSource] at few ⊢
  cases mode with
  | permissive =>
      have few : (remarks source).length ≤ Findings.capacity := by
        simpa [Findings.ofRemarks] using few
      simp [Findings.ofRemarks, Findings.all, List.take_of_length_le few]
  | strict =>
      have few : (remarks source).length ≤ Findings.capacity := by
        simpa [Findings.ofRemarks] using few
      simp [Findings.ofRemarks, Findings.all, List.take_of_length_le few]

/-- Kept findings are about remarks. -/
theorem exists_remark_of_mem_findings {mode : Mode} {finding : Finding}
    (h : finding ∈ (ofSource source mode).findings.all) :
    ∃ remark ∈ remarks source, finding = .ofRemark source mode remark := by
  rw [findings_ofSource, Findings.all] at h
  cases mode with
  | permissive =>
      obtain ⟨remark, member, rfl⟩ := List.mem_map.1 h
      exact ⟨remark, List.mem_of_mem_take member, rfl⟩
  | strict =>
      rw [Findings.ofRemarks, List.append_nil] at h
      obtain ⟨remark, member, rfl⟩ := List.mem_map.1 h
      exact ⟨remark, List.mem_of_mem_take member, rfl⟩

/-- The line that some characters of a source make. -/
def lineOf (source : Source) (p : List Char × Nat) : Line :=
  .ofChars (Line.ending (1 + source.lines.length) p.2) p.2 p.1

/-- The numbered lines are those of the source. -/
theorem exists_of_mem_zipIdx {p : List Char × Nat} (h : p ∈ source.lines.zipIdx 1) :
    ∃ i, p.2 = 1 + i ∧ source.lines[i]? = some p.1 := by
  obtain ⟨chars, n⟩ := p
  rw [List.mk_mem_zipIdx_iff_le_and_getElem?_sub] at h
  exact ⟨n - 1, by omega, h.2⟩

theorem tokenLines_eq (source : Source) :
    source.tokenLines = (source.lines.zipIdx 1).map (lineOf source) :=
  Line.ofLines_eq_map 1 source.lines

theorem kept_eq_flatMap (source : Source) :
    kept source = (source.lines.zipIdx 1).flatMap fun p =>
      (Line.read source (lineOf source p)).value?.toList := by
  rw [kept_eq, tokenLines_eq, List.filterMap_map, List.filterMap_eq_flatMap_toList]
  rfl

theorem remarks_eq_flatMap (source : Source) :
    remarks source =
      ((source.lines.zipIdx 1).flatMap fun p => (Line.read source (lineOf source p)).remarks) ++
        (source.lines.zipIdx 1).flatMap fun p => Scanned.lineRemarks p.2 p.1 := by
  rw [remarks_eq, scanRemarks_eq, tokenLines_eq, List.flatMap_map]

/-- Statements carry the numbers of their lines. -/
theorem line_of_value (source : Source) (p : List Char × Nat) :
    ∀ statement ∈ (Line.read source (lineOf source p)).value?.toList,
      statement.span.line = p.2 := by
  intro statement member
  exact (Line.line_of_read source (Line.isLineEnd_ending _ _) p.2 p.1).2 statement
    (Option.mem_toList.1 member)

/-- The statements of a source stand on lines of their own, in order. -/
theorem lines_kept_sublist (source : Source) :
    ((kept source).map (·.span.line)).Sublist (List.range' 1 source.lineCount) := by
  have numbers : (source.lines.zipIdx 1).map Prod.snd = List.range' 1 source.lineCount :=
    List.zipIdx_map_snd 1 source.lines
  rw [kept_eq_flatMap, ← numbers]
  exact map_flatMap_sublist (line_of_value source) (fun _ => Option.length_toList_le) _

/-- The statements on a line are what it is read as. -/
theorem kept_on_line (there : source.lines[i]? = some chars) :
    (kept source).filter (fun statement => statement.span.line = 1 + i) =
      (Line.read source (lineOf source (chars, 1 + i))).value?.toList := by
  rw [kept_eq_flatMap]
  exact filter_flatMap_zipIdx (line_of_value source) there 1

/-- The remarks on a line are those on its tokens and those on its characters. -/
theorem remarks_on_line (there : source.lines[i]? = some chars) :
    (remarks source).filter (fun remark => remark.span.line = 1 + i) =
      (Line.read source (lineOf source (chars, 1 + i))).remarks ++
        Scanned.lineRemarks (1 + i) chars := by
  have read : ∀ p, ∀ remark ∈ (Line.read source (lineOf source p)).remarks,
      remark.span.line = p.2 := fun p =>
    (Line.line_of_read source (Line.isLineEnd_ending _ _) p.2 p.1).1
  have scanned : ∀ p : List Char × Nat, ∀ remark ∈ Scanned.lineRemarks p.2 p.1,
      remark.span.line = p.2 := fun p remark member =>
    (Scanned.code_of_mem_lineRemarks member).1
  rw [remarks_eq_flatMap, List.filter_append, filter_flatMap_zipIdx read there 1,
    filter_flatMap_zipIdx scanned there 1]

/-- The tokens on a line are those of its characters. -/
theorem tokensOf_eq (there : source.lines[i]? = some chars) :
    source.tokensOf (1 + i) = (lineOf source (chars, 1 + i)).tokens := by
  have member : lineOf source (chars, 1 + i) ∈ source.tokenLines := by
    rw [tokenLines_eq]
    apply List.mem_map_of_mem
    rw [List.mk_mem_zipIdx_iff_le_and_getElem?_sub]
    exact ⟨Nat.le_add_right 1 i, by rwa [Nat.add_sub_cancel_left]⟩
  exact (Source.tokens_of_mem member).symm

/-- A remark is on a line of the source, and is on its tokens or on its characters. -/
theorem exists_line_of_mem_remarks {remark : Remark} (h : remark ∈ remarks source) :
    ∃ i chars, source.lines[i]? = some chars ∧ remark.span.line = 1 + i ∧
      (remark ∈ (Line.read source (lineOf source (chars, 1 + i))).remarks ∨
        remark ∈ Scanned.lineRemarks (1 + i) chars) := by
  rw [remarks_eq_flatMap] at h
  obtain h | h := List.mem_append.1 h
  · obtain ⟨⟨chars, n⟩, numbered, member⟩ := List.mem_flatMap.1 h
    obtain ⟨i, rfl, there⟩ := exists_of_mem_zipIdx numbered
    have last := Line.isLineEnd_ending (1 + source.lines.length) (1 + i)
    have line := (Line.line_of_read source last (1 + i) chars).1
    exact ⟨i, chars, there, line remark member, .inl member⟩
  · obtain ⟨⟨chars, n⟩, numbered, member⟩ := List.mem_flatMap.1 h
    obtain ⟨i, rfl, there⟩ := exists_of_mem_zipIdx numbered
    exact ⟨i, chars, there, (Scanned.code_of_mem_lineRemarks member).1, .inr member⟩

/-- All that is remarked on are lines of the source. -/
theorem line_of_mem_remarks {remark : Remark} (h : remark ∈ remarks source) :
    remark.span.line ∈ List.range' 1 source.lineCount := by
  obtain ⟨i, chars, there, line, -⟩ := exists_line_of_mem_remarks h
  have inside : i < source.lines.length := (List.getElem?_eq_some_iff.1 there).1
  rw [line, List.mem_range'_1, Source.lineCount]
  omega

/-- Nothing of a source is left out in silence and nothing is made up. As long as all its
findings are kept, the statements of its program stand on lines of their own, in order, and
each line meets with one fate. -/
theorem every_line_accounted (source : Source) (mode : Mode)
    (few : (ofSource source mode).findings.totalErrors +
      (ofSource source mode).findings.totalWarnings ≤ 20) :
    ∃ program, (ofSource source .permissive).program? = some program ∧
      (program.statements.map (·.span.line)).Pairwise (· < ·) ∧
      (∀ statement ∈ program.statements,
        1 ≤ statement.span.line ∧ statement.span.line ≤ source.lineCount) ∧
      (∀ finding ∈ (ofSource source mode).findings.all,
        1 ≤ finding.span.line ∧ finding.span.line ≤ source.lineCount) ∧
      ∀ n, 1 ≤ n → n ≤ source.lineCount → ∃! fate : Fate,
        fate.Meets (source.tokensOf n)
          (program.statements.filter fun statement => statement.span.line = n)
          (((ofSource source mode).findings.all.filter fun finding =>
            finding.span.line = n).map (·.code)) := by
  have findings := all_findings source mode few
  have order := lines_kept_sublist source
  have range : ∀ n ∈ List.range' 1 source.lineCount, 1 ≤ n ∧ n ≤ source.lineCount := by
    intro n member
    rw [List.mem_range'_1] at member
    omega
  refine ⟨⟨kept source⟩, by rw [program?_ofSource, if_neg nofun], ?_, ?_, ?_, ?_⟩
  · exact List.Pairwise.sublist order (List.pairwise_lt_range' _)
  · intro statement member
    exact range _ (order.subset (List.mem_map_of_mem member))
  · rw [findings]
    exact List.forall_mem_map.2 fun remark member => range _ (line_of_mem_remarks member)
  · intro n first last
    obtain ⟨i, rfl⟩ := Nat.exists_eq_add_of_le first
    obtain ⟨chars, there⟩ : ∃ chars, source.lines[i]? = some chars := by
      rw [Source.lineCount] at last
      exact ⟨_, List.getElem?_eq_getElem (by omega)⟩
    have codes : (((ofSource source mode).findings.all.filter fun finding =>
        finding.span.line = 1 + i).map (·.code)) =
        ((remarks source).filter fun remark => remark.span.line = 1 + i).map
          (·.problem.code) := by
      rw [findings, List.filter_map, List.map_map]
      rfl
    rw [codes, remarks_on_line there, tokensOf_eq there, kept_on_line there]
    obtain ⟨fate, meets⟩ := Line.exists_meets source (Line.isLineEnd_ending _ _) (1 + i) chars
    exact ⟨fate, meets, fun other meets' => meets'.eq.trans meets.eq.symm⟩

/-- A source with lines of every fate. The last one ends in a string literal that is not
closed. -/
theorem every_line_accounted_reference :
    let source := Source.ofText "star.pilot"
      "move();\n\nfly();\nrepeat(2, [\"move()\", \"hop\"]);\n\"move();"
    let findings := (ofSource source .strict).findings
    let onLine (n : Nat) : List Code :=
      (findings.all.filter fun finding => finding.span.line = n).map (·.code)
    findings.totalErrors + findings.totalWarnings ≤ 20 ∧
      ∃ program, (ofSource source .permissive).program? = some program ∧
        (∀ n, 1 ≤ n → n ≤ source.lineCount → ∃! fate : Fate,
          fate.Meets (source.tokensOf n)
            (program.statements.filter fun statement => statement.span.line = n) (onLine n)) ∧
        ∀ p ∈ [Fate.kept, .blank, .dropped, .kept, .dropped].zipIdx 1,
          p.1.Meets (source.tokensOf p.2)
            (program.statements.filter fun statement => statement.span.line = p.2)
            (onLine p.2) := by
  intro source findings onLine
  have few : findings.totalErrors + findings.totalWarnings ≤ 20 := by decide +kernel
  obtain ⟨program, accepted, -, -, -, fates⟩ := every_line_accounted source .strict few
  refine ⟨few, program, accepted, fates, ?_⟩
  rw [program?_ofSource, if_neg nofun, Option.some.injEq] at accepted
  subst accepted
  decide +kernel

end Parsed

end Rocket

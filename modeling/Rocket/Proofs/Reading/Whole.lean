import Rocket.Proofs.Reading.Lines

/-!
# Whole sources

A source has a list of remarks, in the order of their recording, and a list of
statements; neither depends on the mode. The mode decides what the remarks count as
and, if there are any, whether the statements make a program.
-/

namespace Rocket

namespace Scanned

/-- The remarks on the characters of one line. -/
def lineRemarks (n : Nat) (chars : List Char) : List Remark :=
  (ofLine n chars).filterMap remark?

theorem lineRemarks_nil (n : Nat) : lineRemarks n [] = [] := rfl

/-- The characters of consecutive lines are remarked on line by line. -/
theorem filterMap_remark?_ofLines (n : Nat) (lines : List (List Char)) :
    (ofLines n lines).filterMap remark? =
      (lines.zipIdx n).flatMap fun (chars, i) => lineRemarks i chars := by
  have silent : ∀ ending n chars, (lineEnd ending n chars).remark? = none :=
    fun _ _ _ => rfl
  fun_induction ofLines n lines with
  | case1 => rfl
  | case2 n chars => simp [silent, lineRemarks]
  | case3 n chars rest more ih => simp [silent, lineRemarks, ih]

end Scanned

namespace Parsed

/-- What there is to remark on a source, in the order of recording. -/
def remarks (source : Source) : List Remark :=
  (reading source source.tokens).remarks ++ source.scanRemarks

/-- The statements of the lines of a source that are understood. -/
def kept (source : Source) : List Statement :=
  (reading source source.tokens).value?.getD []

variable {source : Source}

theorem hasErrors_ofRemarks (source : Source) (mode : Mode) (remarks : List Remark) :
    (Findings.ofRemarks source mode remarks).hasErrors = true ↔ mode = .strict ∧ remarks ≠ [] := by
  cases mode with
  | permissive => simp [Findings.ofRemarks, Findings.hasErrors]
  | strict => simp [Findings.ofRemarks, Findings.hasErrors, List.length_pos_iff]

/-- The findings about a source are its remarks, recorded in one list. -/
theorem findings_ofSource (source : Source) (mode : Mode) :
    (ofSource source mode).findings = .ofRemarks source mode (remarks source) :=
  Findings.extend_ofRemarks source mode _ _

/-- In strict mode a source has a program exactly if there is nothing to remark. -/
theorem program?_ofSource (source : Source) (mode : Mode) :
    (ofSource source mode).program? =
      if mode = .strict ∧ remarks source ≠ [] then none else some ⟨kept source⟩ := by
  have both := findings_ofSource source mode
  have errors := hasErrors_ofRemarks source mode (remarks source)
  have lineErrors := hasErrors_ofRemarks source mode (reading source source.tokens).remarks
  rw [← both] at errors
  by_cases refused : mode = .strict ∧ remarks source ≠ []
  · rw [if_pos refused]
    exact if_pos (errors.2 refused)
  · have accepted : ¬ (mode = .strict ∧ (reading source source.tokens).remarks ≠ []) := by
      rintro ⟨strict, remarked⟩
      exact refused ⟨strict, by simp [remarks, remarked]⟩
    rw [if_neg refused]
    calc (ofSource source mode).program?
        = (ofTokens source mode source.tokens).program? := if_neg fun h => refused (errors.1 h)
      _ = some ⟨kept source⟩ := if_neg fun h => accepted (lineErrors.1 h)

theorem program?_strict_eq_some_iff {program : Program} :
    (ofSource source .strict).program? = some program ↔
      remarks source = [] ∧ program = ⟨kept source⟩ := by
  rw [program?_ofSource]
  by_cases clean : remarks source = []
  · simp [clean, eq_comm]
  · simp [clean]

/-- If there is nothing to remark, the mode plays no part. -/
theorem ofSource_of_clean (clean : remarks source = []) (mode : Mode) :
    ofSource source mode = ⟨some ⟨kept source⟩, .empty⟩ := by
  have program := program?_ofSource source mode
  have findings := findings_ofSource source mode
  rw [clean] at program findings
  rw [if_neg (by simp)] at program
  have empty : Findings.ofRemarks source mode [] = .empty := by cases mode <;> rfl
  rw [empty] at findings
  rw [← program, ← findings]

/-! ## Line by line -/

theorem reading_tokens (source : Source) :
    reading source source.tokens =
      .tell (source.tokenLines.flatMap fun line => (Line.read source line).remarks)
        (source.tokenLines.filterMap fun line => (Line.read source line).value?) := by
  rw [reading_eq source source.hasEnd_tokens, Source.ofTokens_tokens, Line.readLines_eq]

theorem remarks_eq (source : Source) :
    remarks source =
      (source.tokenLines.flatMap fun line => (Line.read source line).remarks)
        ++ source.scanRemarks := by
  rw [remarks, reading_tokens]
  rfl

theorem kept_eq (source : Source) :
    kept source = source.tokenLines.filterMap fun line => (Line.read source line).value? := by
  rw [kept, reading_tokens]
  rfl

theorem scanRemarks_eq (source : Source) :
    source.scanRemarks =
      (source.lines.zipIdx 1).flatMap fun (chars, n) => Scanned.lineRemarks n chars := by
  rw [Source.scanRemarks, Source.scan_eq]
  exact Scanned.filterMap_remark?_ofLines 1 source.lines

end Parsed

end Rocket

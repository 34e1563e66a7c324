import Rocket.Proofs.Reading.Strict

/-!
# The two modes

A source gives rise to the same findings in both modes: what permissive reading warns
of are the errors of strict reading, one by one. Where there is nothing to find, both
read the same program.
-/

namespace Rocket

/-- The finding as strict reading reports it. -/
def Finding.asError (finding : Finding) : Finding :=
  { finding with severity := .error }

namespace Parsed

/-- Whether two readings see the same in a source, the one strictly and the other one
permissively. Each of them counts and keeps findings of its own severity only, and they
keep the same ones. The permissive one always has a program; the strict one has it if
there is no finding. -/
structure IsStrictOf (strict permissive : Parsed) : Prop where
  program : ∃ program, permissive.program? = some program
  noErrors : permissive.findings.errors = [] ∧ permissive.findings.totalErrors = 0
  noWarnings : strict.findings.warnings = [] ∧ strict.findings.totalWarnings = 0
  warnings : ∀ finding ∈ permissive.findings.warnings, finding.severity = .warning
  errors : strict.findings.errors = permissive.findings.warnings.map Finding.asError
  total : strict.findings.totalErrors = permissive.findings.totalWarnings
  accepted : strict.program? =
    if permissive.findings.totalWarnings = 0 then permissive.program? else none

theorem totalWarnings_permissive (source : Source) :
    (ofSource source .permissive).findings.totalWarnings = (remarks source).length := by
  rw [findings_ofSource]
  rfl

/-- Strict and permissive reading see the same in every source. -/
theorem isStrictOf_ofSource (source : Source) :
    (ofSource source .strict).IsStrictOf (ofSource source .permissive) := by
  have strict := findings_ofSource source .strict
  have permissive := findings_ofSource source .permissive
  refine ⟨⟨⟨kept source⟩, program?_ofSource source .permissive⟩, ?_, ?_, ?_, ?_, ?_, ?_⟩
  · rw [permissive]
    exact ⟨rfl, rfl⟩
  · rw [strict]
    exact ⟨rfl, rfl⟩
  · rw [permissive]
    intro finding member
    obtain ⟨remark, -, rfl⟩ := List.mem_map.1 member
    rfl
  · rw [strict, permissive]
    dsimp only [Findings.ofRemarks]
    rw [List.map_map]
    rfl
  · rw [strict, permissive]
    rfl
  · rw [totalWarnings_permissive, program?_ofSource, program?_ofSource]
    by_cases clean : remarks source = []
    · simp [clean]
    · simp [clean]

/-- Whether there is something to remark on a source does not depend on its name. -/
theorem remarks_ofText_eq_nil (name other text : String) :
    remarks (.ofText name text) = [] ↔ remarks (.ofText other text) = [] :=
  remarks_eq_nil_iff.trans remarks_eq_nil_iff.symm

end Parsed

end Rocket

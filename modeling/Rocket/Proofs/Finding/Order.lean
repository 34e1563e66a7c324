import Rocket.Proofs.Finding.Collection

/-!
# The order of findings

The kept findings in source order are the kept ones of both severities, arranged so that
none of them starts before the one in front of it.
-/

namespace Rocket.Findings

theorem startsBy_iff {a b : Finding} :
    startsBy a b = true ↔ a.span.line < b.span.line ∨
      a.span.line = b.span.line ∧ a.span.startCol ≤ b.span.startCol := by
  simp [startsBy]

theorem startsBy_trans (a b c : Finding) (ab : startsBy a b = true) (bc : startsBy b c = true) :
    startsBy a c = true := by
  rw [startsBy_iff] at ab bc ⊢
  omega

theorem startsBy_total (a b : Finding) : (startsBy a b || startsBy b a) = true := by
  rw [Bool.or_eq_true, startsBy_iff, startsBy_iff]
  omega

/-- The kept findings in source order are the kept findings. -/
theorem perm_sorted (fs : Findings) : fs.sorted.Perm (fs.errors ++ fs.warnings) :=
  List.mergeSort_perm _ _

theorem pairwise_sorted (fs : Findings) : fs.sorted.Pairwise (startsBy · · = true) :=
  List.pairwise_mergeSort startsBy_trans startsBy_total _

/-- In source order, lines never decrease. -/
theorem pairwise_lines_sorted (fs : Findings) :
    (fs.sorted.map (·.span.line)).Pairwise (· ≤ ·) := by
  rw [List.pairwise_map]
  apply fs.pairwise_sorted.imp
  intro a b before
  rw [startsBy_iff] at before
  omega

end Rocket.Findings

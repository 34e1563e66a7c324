import Rocket.Finding.Collection

/-!
# What a collection keeps

Recording findings one after another keeps the first few of each severity and counts
all of them. Moving a collection over comes to recording its findings behind the ones
that are there, although some of them are no longer kept.
-/

namespace Rocket.Findings

/-- A collection within its capacity. -/
structure IsBounded (fs : Findings) : Prop where
  errors : fs.errors.length ≤ capacity
  warnings : fs.warnings.length ≤ capacity

theorem length_keep_le {kept : List Finding} (bound : kept.length ≤ capacity)
    (finding : Finding) : (keep kept finding).length ≤ capacity := by
  unfold keep
  split
  next room =>
    rw [List.length_append, List.length_singleton]
    omega
  next => exact bound

/-- Recording a finding counts as having it behind those that are there. -/
theorem take_keep {kept : List Finding} (bound : kept.length ≤ capacity) (finding : Finding)
    (rest : List Finding) :
    (keep kept finding ++ rest).take capacity = (kept ++ finding :: rest).take capacity := by
  rw [← foldl_keep rest _ (length_keep_le bound finding), ← List.foldl_cons,
    foldl_keep _ _ bound]

theorem IsBounded.push {fs : Findings} (bound : fs.IsBounded) (finding : Finding) :
    (fs.push finding).IsBounded := by
  unfold Findings.push
  split
  · exact ⟨length_keep_le bound.errors finding, bound.warnings⟩
  · exact ⟨bound.errors, length_keep_le bound.warnings finding⟩

/-- What recording findings one after another comes to. -/
theorem pushAll_eq (findings : List Finding) {fs : Findings} (bound : fs.IsBounded) :
    fs.pushAll findings =
      { errors := (fs.errors ++ findings.filter (·.isError)).take capacity
        warnings := (fs.warnings ++ findings.filter (!·.isError)).take capacity
        totalErrors := fs.totalErrors + (findings.filter (·.isError)).length
        totalWarnings := fs.totalWarnings + (findings.filter (!·.isError)).length } := by
  induction findings generalizing fs with
  | nil =>
      simp [pushAll, List.take_of_length_le bound.errors, List.take_of_length_le bound.warnings]
  | cons finding rest ih =>
      have step : fs.pushAll (finding :: rest) = (fs.push finding).pushAll rest := rfl
      rw [step, ih (bound.push finding)]
      cases severity : finding.severity with
      | error =>
          have isError : finding.isError = true := by simp [Finding.isError, severity]
          simp [push, severity, isError, take_keep bound.errors, Nat.add_assoc, Nat.add_comm 1]
      | warning =>
          have isError : finding.isError = false := by simp [Finding.isError, severity]
          simp [push, severity, isError, take_keep bound.warnings, Nat.add_assoc, Nat.add_comm 1]

theorem isBounded_empty : empty.IsBounded :=
  ⟨Nat.zero_le _, Nat.zero_le _⟩

/-- A collection of its own keeps the first findings of each severity. -/
theorem collect_eq (findings : List Finding) :
    collect findings =
      { errors := (findings.filter (·.isError)).take capacity
        warnings := (findings.filter (!·.isError)).take capacity
        totalErrors := (findings.filter (·.isError)).length
        totalWarnings := (findings.filter (!·.isError)).length } := by
  rw [collect, pushAll_eq findings isBounded_empty]
  simp [empty]

theorem isBounded_collect (findings : List Finding) : (collect findings).IsBounded := by
  rw [collect_eq]
  exact ⟨List.length_take_le _ _, List.length_take_le _ _⟩

/-- Findings that all agree on a property are picked by it or by its negation. -/
theorem filter_take_filter (p : Finding → Bool) (findings : List Finding) :
    ((findings.filter p).take capacity).filter p = (findings.filter p).take capacity ∧
      ((findings.filter p).take capacity).filter (!p ·) = [] := by
  have picked : ∀ finding ∈ (findings.filter p).take capacity, p finding = true :=
    fun finding member => (List.mem_filter.1 (List.mem_of_mem_take member)).2
  constructor
  · exact List.filter_eq_self.2 picked
  · rw [List.filter_eq_nil_iff]
    intro finding member
    simp [picked finding member]

/-- Moving a collection over is recording its findings behind the ones there. -/
theorem extend_collect (xs ys : List Finding) :
    (collect xs).extend (collect ys) = collect (xs ++ ys) := by
  obtain ⟨errors, noWarning⟩ := filter_take_filter (·.isError) ys
  obtain ⟨warnings, noError⟩ := filter_take_filter (!·.isError) ys
  simp only [Bool.not_not] at noError
  have moved : ∀ n k : Nat, n + min capacity k + (k - min capacity k) = n + k := by
    intro n k
    omega
  rw [collect_append, extend, pushAll_eq _ (isBounded_collect xs),
    pushAll_eq _ (isBounded_collect xs), collect_eq ys]
  simp only [List.filter_append, errors, noWarning, warnings, noError, List.append_nil,
    List.nil_append, List.length_take, moved, Findings.mk.injEq, and_true]
  simp [List.take_append, List.take_take]

/-- What a source gives rise to in two parts is recorded as a whole. -/
theorem extend_ofRemarks (source : Source) (mode : Mode) (front back : List Remark) :
    (ofRemarks source mode front).extend (ofRemarks source mode back) =
      ofRemarks source mode (front ++ back) := by
  rw [ofRemarks_eq_collect, ofRemarks_eq_collect, ofRemarks_eq_collect, extend_collect,
    List.map_append]

end Rocket.Findings

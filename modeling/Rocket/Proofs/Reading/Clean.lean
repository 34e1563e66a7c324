import Rocket.Reading.Basic

/-!
# Clean readings

A reading is clean if it has a value and nothing to remark. A composite reading is
clean exactly if all its parts are. A reading explains itself if it is clean
whenever it remarks on nothing, that is, if it never fails in silence.
-/

namespace Rocket.Reading

variable {α β : Type} {r : Reading α} {f : α → Reading β} {a : α} {b : β}

theorem eq_pure_iff : r = pure a ↔ r.remarks = [] ∧ r.value? = some a := by
  cases r
  simp [pure]

/-- A composite is clean exactly if both of its parts are. -/
theorem bind_eq_pure_iff : r >>= f = pure b ↔ ∃ a, r = pure a ∧ f a = pure b := by
  constructor
  · intro clean
    obtain ⟨silent, value⟩ := eq_pure_iff.1 clean
    obtain ⟨a, first, second⟩ := value?_bind_eq_some_iff.1 value
    have both : (r >>= f).remarks = r.remarks ++ (f a).remarks := by
      simp [bind, andThen, first]
    rw [both, List.append_eq_nil_iff] at silent
    exact ⟨a, eq_pure_iff.2 ⟨silent.1, first⟩, eq_pure_iff.2 ⟨silent.2, second⟩⟩
  · rintro ⟨a, rfl, second⟩
    rw [pure_bind_eq, second]

theorem fail_ne_pure {remarks : List Remark} : fail remarks ≠ (pure a : Reading α) := by
  simp [fail, pure]

theorem tell_eq_pure_iff {remarks : List Remark} {a' : α} :
    tell remarks a' = (pure a : Reading α) ↔ remarks = [] ∧ a' = a := by
  simp [tell, pure]

theorem pure_inj {a' : α} : (pure a' : Reading α) = pure a ↔ a' = a := by
  simp [pure]

/-- Whether the reading has a value, unless it remarks on something. -/
def Explains (r : Reading α) : Prop :=
  r.remarks = [] → ∃ a, r = pure a

theorem explains_pure (a : α) : Explains (pure a) :=
  fun _ => ⟨a, rfl⟩

theorem explains_tell (remarks : List Remark) (a : α) : Explains (tell remarks a) :=
  fun silent => ⟨a, tell_eq_pure_iff.2 ⟨silent, rfl⟩⟩

theorem explains_fail {remarks : List Remark} (h : remarks ≠ []) :
    Explains (fail remarks : Reading α) :=
  fun silent => absurd silent h

/-- A composite explains itself if its first part does, and its second part does
behind a clean first one. -/
theorem Explains.bind (first : r.Explains) (second : ∀ a, r = pure a → (f a).Explains) :
    (r >>= f).Explains := by
  intro silent
  have before : r.remarks = [] := by
    cases value : r.value? with
    | none => simpa [Bind.bind, andThen, value] using silent
    | some a =>
        simp only [Bind.bind, andThen, value, List.append_eq_nil_iff] at silent
        exact silent.1
  obtain ⟨a, rfl⟩ := first before
  rw [pure_bind_eq] at silent ⊢
  exact second a rfl silent

end Rocket.Reading

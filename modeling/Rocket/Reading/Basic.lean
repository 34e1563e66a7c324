import Rocket.Finding.Problem

/-!
# Readings

What comes of reading part of a line: a value, unless the part is not understood,
and what there is to remark in either case. Readings compose; the first part that
is not understood ends the composite.
-/

namespace Rocket

/-- The result of reading part of a source. -/
structure Reading (α : Type) where
  remarks : List Remark
  value? : Option α

namespace Reading

variable {α β : Type}

/-- Nothing is understood. -/
def fail (remarks : List Remark) : Reading α :=
  ⟨remarks, none⟩

/-- Understood, with something to remark. -/
def tell (remarks : List Remark) (a : α) : Reading α :=
  ⟨remarks, some a⟩

/-- Read on from the value of a part. -/
def andThen (r : Reading α) (f : α → Reading β) : Reading β :=
  match r.value? with
  | none => ⟨r.remarks, none⟩
  | some a => ⟨r.remarks ++ (f a).remarks, (f a).value?⟩

instance : Monad Reading where
  pure a := ⟨[], some a⟩
  bind := andThen

@[simp]
theorem remarks_pure (a : α) : (pure a : Reading α).remarks = [] := rfl

@[simp]
theorem value?_pure (a : α) : (pure a : Reading α).value? = some a := rfl

@[simp]
theorem fail_bind (remarks : List Remark) (f : α → Reading β) :
    fail remarks >>= f = fail remarks := rfl

@[simp]
theorem tell_bind (remarks : List Remark) (a : α) (f : α → Reading β) :
    tell remarks a >>= f = ⟨remarks ++ (f a).remarks, (f a).value?⟩ := rfl

@[simp]
theorem pure_bind_eq (a : α) (f : α → Reading β) : (pure a >>= f : Reading β) = f a := by
  simp [bind, andThen, pure]

instance : LawfulMonad Reading := LawfulMonad.mk' _
  (by
    intro α r
    cases h : r.value? <;> cases r <;> simp_all [Functor.map, andThen])
  (by
    intro α β a f
    exact pure_bind_eq a f)
  (by
    intro α β γ r f g
    cases h : r.value? with
    | none => simp [bind, andThen, h]
    | some a => cases h' : (f a).value? <;> simp [bind, andThen, h, h'])

@[simp]
theorem remarks_map (f : α → β) (r : Reading α) : (f <$> r).remarks = r.remarks := by
  obtain ⟨remarks, value?⟩ := r
  cases value? with
  | none => rfl
  | some a => exact List.append_nil remarks

@[simp]
theorem value?_map (f : α → β) (r : Reading α) : (f <$> r).value? = r.value?.map f := by
  obtain ⟨remarks, value?⟩ := r
  cases value? <;> rfl

theorem value?_bind_eq_some_iff {r : Reading α} {f : α → Reading β} {b : β} :
    (r >>= f).value? = some b ↔ ∃ a, r.value? = some a ∧ (f a).value? = some b := by
  cases h : r.value? <;> simp [bind, andThen, h]

end Reading

end Rocket

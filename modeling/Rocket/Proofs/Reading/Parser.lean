import Rocket.Reading.Parser

/-!
# Runs of parsers

What a composite parser comes to when it is known what its first part comes to: the
first part has a value and nothing to remark, or something to remark, or no value. A
loop goes on as its next round says.
-/

namespace Rocket.Parser

open Token (Kind)

variable {α β γ : Type} {tokens : Array Token} {place : Nat}

theorem run_pure (a : α) : (pure a : Parser α).run tokens place = (pure a, place) := rfl

/-- Reading on behind a part with nothing to remark. -/
theorem run_bind_of_pure {p : Parser α} {a : α} {after : Nat}
    (h : p.run tokens place = (pure a, after)) (f : α → Parser β) :
    (p >>= f).run tokens place = (f a).run tokens after := by
  change (p.andThen f).run tokens place = _
  rw [andThen]
  dsimp only
  rw [h]
  rfl

/-- A part that is not understood ends the whole. -/
theorem run_bind_of_fail {p : Parser α} {remarks : List Remark} {after : Nat}
    (h : p.run tokens place = (.fail remarks, after)) (f : α → Parser β) :
    (p >>= f).run tokens place = (.fail remarks, after) := by
  change (p.andThen f).run tokens place = _
  rw [andThen]
  dsimp only
  rw [h]
  rfl

/-- Reading on behind a part with something to remark. -/
theorem run_bind_of_tell {p : Parser α} {remarks : List Remark} {a : α} {after : Nat}
    (h : p.run tokens place = (.tell remarks a, after)) (f : α → Parser β) :
    (p >>= f).run tokens place =
      (⟨remarks ++ ((f a).run tokens after).1.remarks, ((f a).run tokens after).1.value?⟩,
        ((f a).run tokens after).2) := by
  change (p.andThen f).run tokens place = _
  rw [andThen]
  dsimp only
  rw [h]
  rfl

/-- A part that is not understood is behind all the same. -/
theorem run_recover {p : Parser α} {reading : Reading α} {after : Nat}
    (h : p.run tokens place = (reading, after)) :
    (recover p).run tokens place = (.tell reading.remarks reading.value?, after) := by
  have same : (recover p).run tokens place =
      (.tell (p.run tokens place).1.remarks (p.run tokens place).1.value?,
        (p.run tokens place).2) := rfl
  rw [same, h]

/-- A part of a part is a part. -/
theorem run_bind_assoc (p : Parser α) (f : α → Parser β) (g : β → Parser γ) :
    ((p >>= f) >>= g).run tokens place = (p >>= fun a => f a >>= g).run tokens place := by
  change ((p.andThen f).andThen g).run tokens place =
    (p.andThen fun a => (f a).andThen g).run tokens place
  simp only [andThen]
  obtain ⟨⟨remarks, value?⟩, after⟩ := p.run tokens place
  cases value? with
  | none => rfl
  | some a =>
      generalize second : (f a).run tokens after = result
      obtain ⟨⟨told, value?⟩, last⟩ := result
      cases value? with
      | none => simp only [second]
      | some b => simp only [second, List.append_assoc]

/-! ## Single tokens -/

section Ahead

variable {token : Token} {rest : List Token} (ahead : tokens.toList.drop place = token :: rest)
include ahead

theorem getElem?_of_ahead : tokens[place]? = some token := by
  have next := congrArg (·[0]?) ahead
  rwa [List.getElem?_drop, Nat.add_zero, Array.getElem?_toList] at next

theorem tokenAt_of_ahead : tokenAt tokens place = token := by
  rw [tokenAt, getElem?_of_ahead ahead]
  rfl

theorem lt_size_of_ahead : place < tokens.size :=
  (Array.getElem?_eq_some_iff.1 (getElem?_of_ahead ahead)).1

theorem ahead_succ : tokens.toList.drop (place + 1) = rest := by
  rw [← List.drop_drop, ahead]
  rfl

end Ahead

theorem run_advance (inside : place < tokens.size) :
    advance.run tokens place = (pure (tokenAt tokens place), place + 1) := by
  rw [advance]
  dsimp only
  rw [if_pos inside]

theorem run_eat_of_eq {kind : Kind} (same : (tokenAt tokens place).kind = kind)
    (inside : place < tokens.size) : (eat kind).run tokens place = (pure true, place + 1) := by
  rw [eat, run_bind_of_pure rfl, if_pos same, run_bind_of_pure (run_advance inside)]
  rfl

theorem run_eat_of_ne {kind : Kind} (differ : (tokenAt tokens place).kind ≠ kind) :
    (eat kind).run tokens place = (pure false, place) := by
  rw [eat, run_bind_of_pure rfl, if_neg differ]
  rfl

/-! ## Loops -/

section Loop

variable {σ : Type} {round : σ → Parser (σ ⊕ α)} {s s' : σ} {remarks : List Remark} {after : Nat}

/-- A round with a result is the last one. -/
theorem iterateFrom_of_result {a : α}
    (h : (round s).run tokens place = (⟨remarks, some (.inr a)⟩, after)) :
    iterateFrom round tokens s place = (⟨remarks, some a⟩, after) := by
  rw [iterateFrom]
  simp only [h]

/-- A round that is not understood is the last one. -/
theorem iterateFrom_of_fail (h : (round s).run tokens place = (⟨remarks, none⟩, after)) :
    iterateFrom round tokens s place = (⟨remarks, none⟩, after) := by
  rw [iterateFrom]
  simp only [h]

/-- A round that asks for another one and has moved on. -/
theorem iterateFrom_of_next
    (h : (round s).run tokens place = (⟨remarks, some (.inl s')⟩, after))
    (moved : place < after) (inside : place < tokens.size) :
    iterateFrom round tokens s place =
      (⟨remarks ++ (iterateFrom round tokens s' after).1.remarks,
        (iterateFrom round tokens s' after).1.value?⟩, (iterateFrom round tokens s' after).2) := by
  have nearer : tokens.size - after < tokens.size - place := by omega
  rw [iterateFrom]
  simp only [h, dif_pos nearer]

end Loop

end Rocket.Parser

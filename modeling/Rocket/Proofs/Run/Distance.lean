import Rocket.Proofs.Run.Safety

/-!
# How far a run comes

With every action the rocket comes at most one cell farther away from where it was, and it
does so only if the log tells of a move. A run cannot come farther than it has moved.
-/

namespace Rocket

namespace Position

/-- How far two cells are apart, across and down. -/
def distance (a b : Position) : Nat :=
  (b.x.toInt - a.x.toInt).natAbs + (b.y.toInt - a.y.toInt).natAbs

@[simp]
theorem distance_self (a : Position) : a.distance a = 0 := by
  simp [distance]

/-- The next cell is at most one farther away. -/
theorem StepsExactly.distance_le {p : Position} {h : Heading} (exact : p.StepsExactly h)
    (a : Position) : a.distance (p.step h) ≤ a.distance p + 1 := by
  obtain ⟨x, y⟩ := exact
  rw [distance, distance, x, y]
  -- a displacement is across or down, not both
  have single : h.delta.1.toInt.natAbs + h.delta.2.toInt.natAbs = 1 := by cases h <;> decide
  omega

end Position

/-- Whether the entry tells of a move that was performed. -/
def LogEntry.isMoved : LogEntry → Bool
  | .moved _ => true
  | _ => false

/-- On a board that is not too large, a step leads at most one cell farther away, and if it
is no move it leaves the rocket in its cell. -/
theorem Run.distance_of_next {run after : Run} {step : Step}
    (size : run.world.grid.size ≤ Level.maxGridSize)
    (inside : run.world.grid.contains run.agent.position = true)
    (next : run.next = .ok (some (step, after))) (origin : Position) :
    origin.distance after.agent.position ≤
      origin.distance run.agent.position + if step.entry.isMoved then 1 else 0 := by
  obtain ⟨-, agent, p, effect, acts, shown, entry⟩ := exists_acts_of_next next
  rw [agent, shown, entry]
  cases acts with
  | spent p spent => exact Nat.le_add_right _ _
  | turned turn allowed => exact Nat.le_add_right _ _
  | moved allowed free =>
      have bound : (run.world.grid.size : Int) ≤ 64 := Int.ofNat_le.2 size
      have exact := (Grid.isWithin_of_contains inside).stepsExactly (by omega) (by omega)
        run.agent.heading
      exact exact.distance_le origin
  | blocked allowed outside => exact Nat.le_add_right _ _

end Rocket

import Mathlib
import Rocket.Level.Basic
import Rocket.Proofs.Run.Trace

/-!
# Runs stay in range

Whatever a program asks for, a run keeps its numbers in range: the rocket stays on the
board, a coordinate is never stepped out of its word, the place in a repetition points
into its body, and no more actions are performed than the budget allows.

## Implementation notes

A cursor may stand at repetitions that are over, and these are passed over before an
action is looked up. What has to be in range is the place where the lookup is made.
-/

namespace Rocket

namespace Position

/-- Whether both coordinates lie between two bounds. -/
def IsWithin (low high : Int) (p : Position) : Prop :=
  (low ≤ p.x.toInt ∧ p.x.toInt ≤ high) ∧ low ≤ p.y.toInt ∧ p.y.toInt ≤ high

/-- Whether a step along a heading comes to the sum of the coordinates and the
displacement, as it does unless a coordinate leaves its word. -/
def StepsExactly (p : Position) (h : Heading) : Prop :=
  (p.step h).x.toInt = p.x.toInt + h.delta.1.toInt ∧
    (p.step h).y.toInt = p.y.toInt + h.delta.2.toInt

variable {low high : Int} {p : Position}

theorem toInt_add_of_mem {a b : Int32} (least : -2 ^ 31 ≤ a.toInt + b.toInt)
    (most : a.toInt + b.toInt < 2 ^ 31) : (a + b).toInt = a.toInt + b.toInt := by
  rw [Int32.toInt_add]
  exact Int.bmod_eq_of_le (by omega) (by omega)

/-- A displacement is by one cell at most. -/
theorem delta_mem (h : Heading) :
    (-1 ≤ h.delta.1.toInt ∧ h.delta.1.toInt ≤ 1) ∧ -1 ≤ h.delta.2.toInt ∧ h.delta.2.toInt ≤ 1 := by
  cases h <;> decide

/-- Next to a cell away from the ends of the range, a step is exact. -/
theorem IsWithin.stepsExactly (inside : p.IsWithin low high) (least : -2 ^ 31 < low)
    (most : high < 2 ^ 31 - 1) (h : Heading) : p.StepsExactly h := by
  obtain ⟨⟨xLow, xHigh⟩, yLow, yHigh⟩ := inside
  obtain ⟨⟨dxLow, dxHigh⟩, dyLow, dyHigh⟩ := delta_mem h
  exact ⟨toInt_add_of_mem (by omega) (by omega), toInt_add_of_mem (by omega) (by omega)⟩

theorem StepsExactly.isWithin_step {h : Heading} (exact : p.StepsExactly h)
    (inside : p.IsWithin low high) : (p.step h).IsWithin (low - 1) (high + 1) := by
  obtain ⟨⟨xLow, xHigh⟩, yLow, yHigh⟩ := inside
  obtain ⟨⟨dxLow, dxHigh⟩, dyLow, dyHigh⟩ := delta_mem h
  obtain ⟨x, y⟩ := exact
  exact ⟨⟨by omega, by omega⟩, by omega, by omega⟩

end Position

theorem Grid.isWithin_of_contains {grid : Grid} {p : Position} (inside : grid.contains p = true) :
    p.IsWithin 0 (grid.size - 1) := by
  obtain ⟨⟨xLow, xHigh⟩, yLow, yHigh⟩ := Grid.contains_iff.1 inside
  exact ⟨⟨xLow, by omega⟩, yLow, by omega⟩

/-- What the checks of a level make sure of in its world. -/
structure World.IsPlayable (world : World) : Prop where
  size : world.grid.size ≤ Level.maxGridSize
  start : world.grid.contains world.start.position = true
  target : world.grid.contains world.target = true

/-- The world that the checks of a level let pass. -/
theorem Level.of_world_eq_ok {level : Level} {world : World} (valid : level.world = .ok world) :
    world.IsPlayable ∧ world = ⟨level.grid, ⟨level.start, level.startHeading⟩, level.target,
      level.maxSteps.toNat⟩ := by
  unfold Level.world at valid
  split at valid
  · cases valid
  next size =>
    split at valid
    · cases valid
    next start =>
      split at valid
      · cases valid
      next target =>
        split at valid
        · cases valid
        · obtain rfl := Except.ok.inj valid
          rw [not_or, Nat.not_lt] at size
          exact ⟨⟨size.2, by simpa using start, by simpa using target⟩, rfl⟩

/-! ## Places where an action is looked up -/

namespace Cursor

/-- The place behind the repetitions that are over. -/
def dueOf : List Statement → (iteration position : Nat) → Cursor
  | [], iteration, position => ⟨[], iteration, position⟩
  | statement :: rest, iteration, position =>
      match statement.command with
      | .primitive _ => ⟨statement :: rest, iteration, position⟩
      | .loop count body =>
          if body.isEmpty ∨ count.toNat ≤ iteration then dueOf rest 0 0
          else ⟨statement :: rest, iteration, position⟩

/-- The place where the next action is looked up. -/
def due (cursor : Cursor) : Cursor :=
  dueOf cursor.pending cursor.iteration cursor.position

/-- Whether the lookup of the next action cannot fail: in a repetition the place points
into the body, in an iteration that is still to be made, and the action found there is the
next one. -/
def IsInRange (cursor : Cursor) : Prop :=
  ∀ statement rest count body, cursor.due.pending = statement :: rest →
    statement.command = .loop count body →
      ∃ inside : cursor.due.position < body.length,
        cursor.due.iteration < count.toNat ∧
          cursor.next = .ok (some (body[cursor.due.position], statement.span.line,
            behind (statement :: rest) body.length cursor.due.iteration cursor.due.position))

variable {cursor following : Cursor} {p : Primitive} {line : Nat}

/-- A repetition where an action is looked up is not over. -/
theorem more_of_due {statement : Statement} {rest : List Statement} {count : UInt32}
    {body : List Primitive} (pending : cursor.due.pending = statement :: rest)
    (command : statement.command = .loop count body) :
    body ≠ [] ∧ cursor.due.iteration < count.toNat := by
  obtain ⟨all, iteration, position⟩ := cursor
  rw [due] at pending ⊢
  dsimp only at pending ⊢
  fun_induction dueOf all iteration position with
  | case1 => cases pending
  | case2 first others iteration position p single =>
      obtain ⟨rfl, rfl⟩ := List.cons.inj pending
      rw [single] at command
      cases command
  | case3 first others iteration position count body repeats ended ih => exact ih pending
  | case4 first others iteration position count body repeats more =>
      obtain ⟨rfl, rfl⟩ := List.cons.inj pending
      rw [repeats] at command
      obtain ⟨rfl, rfl⟩ := Command.loop.inj command
      rwa [not_or, List.isEmpty_iff, Nat.not_le] at more

/-- Passing over the repetitions that are over does not change the next action. -/
theorem next_due (cursor : Cursor) : cursor.due.next = cursor.next := by
  obtain ⟨pending, iteration, position⟩ := cursor
  rw [due, next, next]
  dsimp only
  fun_induction dueOf pending iteration position with
  | case1 => rfl
  | case2 statement rest iteration position p command => rfl
  | case3 statement rest iteration position count body command ended ih =>
      rw [ih, nextOf, command]
      simp only [if_pos ended]
  | case4 statement rest iteration position count body command more => rfl

theorem isInside_due (inside : cursor.IsInside) : cursor.due.IsInside := by
  obtain ⟨pending, iteration, position⟩ := cursor
  rw [due]
  dsimp only
  fun_induction dueOf pending iteration position with
  | case1 => exact inside
  | case2 statement rest iteration position p command => exact inside
  | case3 statement rest iteration position count body command ended ih =>
      exact ih (isInside_ofStatements rest)
  | case4 statement rest iteration position count body command more => exact inside

/-- A place inside its repetition is one where the lookup cannot fail. -/
theorem IsInside.isInRange (inside : cursor.IsInside) : cursor.IsInRange := by
  intro statement rest count body pending command
  obtain ⟨nonempty, more⟩ := more_of_due pending command
  have bound := isInside_due inside statement rest count body pending command nonempty
  refine ⟨bound, more, ?_⟩
  have going : ¬(body.isEmpty = true ∨ count.toNat ≤ cursor.due.iteration) := by
    rw [not_or, List.isEmpty_iff, Nat.not_le]
    exact ⟨nonempty, more⟩
  rw [← next_due, Cursor.next, pending, nextOf, command]
  simp only [if_neg going, List.getElem?_eq_getElem bound]

/-- Where the lookup cannot fail, neither can asking for the next action, and the place
behind it is again one inside its repetition. -/
theorem IsInside.exists_next (inside : cursor.IsInside) :
    ∃ next?, cursor.next = .ok next? ∧
      ∀ p line behind, next? = some (p, line, behind) → behind.IsInside := by
  have next := isNextOf_next cursor inside
  rw [IsNextOf] at next
  split at next
  · refine ⟨none, next, ?_⟩
    rintro _ _ _ ⟨⟩
  next p line tail remaining =>
    obtain ⟨behind, next, inside, -⟩ := next
    refine ⟨_, next, ?_⟩
    rintro _ _ _ ⟨⟩
    exact inside

end Cursor

/-- The cell that an action was to lead to, if it was a move. -/
def LogEntry.attempted? : LogEntry → Option Position
  | .moved target => some target
  | .blocked _ attempted => some attempted
  | _ => none

namespace Run

/-- Whether a run comes to another by making some steps. -/
inductive Makes : Run → List Step → Run → Prop
  | rest (run : Run) : Makes run [] run
  | step {run middle last : Run} {step : Step} {steps : List Step}
      (next : run.next = .ok (some (step, middle))) (others : Makes middle steps last) :
      Makes run (step :: steps) last

/-- Whether nothing about a run is out of range, on a board of side length `size` and with
a budget of `limit` actions. -/
structure IsInRange (size limit : Nat) (run : Run) : Prop where
  position : run.agent.position.IsWithin 0 (size - 1)
  /-- The cell ahead can be computed, on the board or next to it. -/
  exact : run.agent.position.StepsExactly run.agent.heading
  ahead : (run.agent.position.step run.agent.heading).IsWithin (-1) Level.maxGridSize
  /-- A move is to the cell ahead. -/
  attempted : ∀ step after, run.next = .ok (some (step, after)) →
    ∀ cell, step.entry.attempted? = some cell → cell = run.agent.position.step run.agent.heading
  cursor : run.cursor.IsInRange
  next : ∃ next?, run.next = .ok next?
  taken : run.taken ≤ limit
  index : run.index ≤ limit + 1

/-- What every run of a program in a world keeps to, wherever it starts. -/
structure IsKept (world : World) (run : Run) : Prop where
  world_eq : run.world = world
  ready : run.IsReady
  taken : run.taken ≤ world.maxSteps
  index : run.index ≤ run.taken + 1

variable {world : World} {run after last : Run} {step : Step} {steps : List Step}

/-- A step is made by the next action of a run that is not halted. -/
theorem exists_advance_of_next (next : run.next = .ok (some (step, after))) :
    run.halt? = none ∧ ∃ p line behind, run.cursor.next = .ok (some (p, line, behind)) ∧
      run.advance p line behind = (step, after) := by
  unfold Run.next at next
  split at next
  · simp at next
  next going =>
    split at next
    · simp at next
    · simp at next
    next p line behind due =>
      exact ⟨by simpa using going, p, line, behind, due, Option.some.inj (Except.ok.inj next)⟩

/-- A step shows what its action comes to. -/
theorem exists_acts_of_next (next : run.next = .ok (some (step, after))) :
    after.world = run.world ∧ after.agent = step.agent ∧ ∃ p effect,
      run.world.Acts run.taken run.agent p effect ∧ step.agent = effect.agent ∧
        step.entry = effect.entry := by
  obtain ⟨-, p, line, behind, -, made⟩ := exists_advance_of_next next
  obtain ⟨rfl, rfl⟩ := Prod.mk.inj made
  exact ⟨rfl, rfl, p, _, run.world.acts_effect run.taken run.agent p, rfl, rfl⟩

/-- A run that is inside its program never fails to say whether it makes a step. -/
theorem IsReady.exists_next (ready : run.IsReady) : ∃ next?, run.next = .ok next? := by
  unfold Run.next
  split
  · exact ⟨none, rfl⟩
  · obtain ⟨next?, next, -⟩ := ready.inside.exists_next
    rw [next]
    cases next? <;> exact ⟨_, rfl⟩

theorem IsReady.next (ready : run.IsReady) (next : run.next = .ok (some (step, after))) :
    after.IsReady := by
  obtain ⟨going, p, line, behind, due, made⟩ := exists_advance_of_next next
  obtain ⟨next?, found, inside⟩ := ready.inside.exists_next
  rw [due] at found
  obtain rfl := Except.ok.inj found
  obtain ⟨rfl, rfl⟩ := Prod.mk.inj made
  exact ⟨inside p line behind rfl, counted_advance (ready.counted going) p line behind⟩

theorem IsKept.next (kept : run.IsKept world) (next : run.next = .ok (some (step, after))) :
    after.IsKept world := by
  obtain ⟨rfl, ready, taken, index⟩ := kept
  have readyAfter := ready.next next
  obtain ⟨going, p, line, behind, -, made⟩ := exists_advance_of_next next
  have counted := ready.counted going
  obtain ⟨rfl, rfl⟩ := Prod.mk.inj made
  refine ⟨rfl, readyAfter, ?_, ?_⟩ <;> dsimp only [advance]
  · split <;> omega
  · split <;> omega

theorem isKept_start (program : Program) (world : World) : (start program world).IsKept world :=
  ⟨rfl, isReady_start program world, Nat.zero_le _, Nat.zero_le _⟩

theorem IsKept.makes (kept : run.IsKept world) (makes : run.Makes steps last) :
    last.IsKept world := by
  induction makes with
  | rest run => exact kept
  | step next others ih => exact ih (kept.next next)

/-- An action leaves the rocket in its cell or moves it to a cell of the board. -/
theorem position_of_next (next : run.next = .ok (some (step, after))) :
    after.world = run.world ∧ (after.agent.position = run.agent.position ∨
      run.world.grid.contains after.agent.position = true) := by
  obtain ⟨world, agent, p, effect, acts, shown, -⟩ := exists_acts_of_next next
  refine ⟨world, ?_⟩
  rw [agent, shown]
  cases acts with
  | spent p spent => exact .inl rfl
  | turned turn allowed => exact .inl rfl
  | moved allowed free => exact .inr free
  | blocked allowed outside => exact .inl rfl

/-- However many steps are made, the rocket is in the cell where it was or on the board. -/
theorem Makes.position (makes : run.Makes steps last) :
    last.agent.position = run.agent.position ∨
      run.world.grid.contains last.agent.position = true := by
  induction makes with
  | rest run => exact .inl rfl
  | @step run middle last step steps next others ih =>
      obtain ⟨world, position⟩ := position_of_next next
      rw [world] at ih
      obtain stays | moves := ih
      · rwa [stays]
      · exact .inr moves

/-- Once the rocket is on the board, it stays there. -/
theorem Makes.contains (makes : run.Makes steps last)
    (inside : run.world.grid.contains run.agent.position = true) :
    run.world.grid.contains last.agent.position = true := by
  obtain stays | moves := makes.position
  · rwa [stays]
  · exact moves

theorem Makes.index (makes : run.Makes steps last) : last.index = run.index + steps.length := by
  induction makes with
  | rest run => rfl
  | @step run middle last step steps next others ih =>
      obtain ⟨-, p, line, behind, -, made⟩ := exists_advance_of_next next
      obtain ⟨rfl, rfl⟩ := Prod.mk.inj made
      rw [ih, List.length_cons]
      dsimp only [advance]
      omega

/-- The cell that a step was to lead to is the one ahead of the rocket before it. -/
theorem attempted_of_next (next : run.next = .ok (some (step, after))) {cell : Position}
    (attempted : step.entry.attempted? = some cell) :
    cell = run.agent.position.step run.agent.heading := by
  obtain ⟨-, -, p, effect, acts, -, shown⟩ := exists_acts_of_next next
  rw [shown] at attempted
  cases acts with
  | spent p spent => cases attempted
  | turned turn allowed => cases attempted
  | moved allowed free => exact (Option.some.inj attempted).symm
  | blocked allowed outside => exact (Option.some.inj attempted).symm

/-- On a board that is not too large, nothing about a run that keeps to its world is out
of range as long as the rocket is on the board. -/
theorem IsKept.isInRange (kept : run.IsKept world) (size : world.grid.size ≤ Level.maxGridSize)
    (inside : world.grid.contains run.agent.position = true) :
    run.IsInRange world.grid.size world.maxSteps := by
  have position := Grid.isWithin_of_contains inside
  have bound : (world.grid.size : Int) ≤ 64 := Int.ofNat_le.2 size
  have exact := position.stepsExactly (by omega) (by omega) run.agent.heading
  have ahead := exact.isWithin_step position
  refine ⟨position, exact, ?_, fun step after next cell => attempted_of_next next,
    kept.ready.inside.isInRange, kept.ready.exists_next, kept.taken, ?_⟩
  · obtain ⟨⟨xLow, xHigh⟩, yLow, yHigh⟩ := ahead
    have limit : (Level.maxGridSize : Int) = 64 := rfl
    exact ⟨⟨by omega, by omega⟩, by omega, by omega⟩
  · have taken := kept.taken
    have index := kept.index
    omega

/-- In the world of a level that can be played, whatever steps a run makes, nothing about
it is out of range, and it makes at most one step more than the budget allows actions. -/
theorem Makes.isInRange {level : Level} (valid : level.world = .ok world) {program : Program}
    (makes : (start program world).Makes steps run) :
    run.IsInRange level.gridSize.toNat level.maxSteps.toNat ∧
      steps.length ≤ level.maxSteps.toNat + 1 := by
  obtain ⟨⟨size, inside, -⟩, rfl⟩ := Level.of_world_eq_ok valid
  have inRange := ((isKept_start program _).makes makes).isInRange size (makes.contains inside)
  have index := inRange.index
  rw [makes.index] at index
  exact ⟨inRange, Nat.le_trans (Nat.le_add_left _ _) index⟩

end Run

end Rocket

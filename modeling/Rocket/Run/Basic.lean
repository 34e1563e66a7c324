import Rocket.Run.Cursor
import Rocket.Run.LogEntry

/-!
# Runs

A run performs the actions of a program in a world, one at a time. It ends with
the program, with a move that would leave the grid, or when an action is due and
the budget is spent.
-/

namespace Rocket

/-- What an action does: the entry it leaves in the log, the rocket after it, and
why it ends the run, if it does. -/
structure Effect where
  entry : LogEntry
  agent : Agent
  halt? : Option Halt
  deriving DecidableEq

namespace World

/-- The effect of an action that is performed. -/
def perform (world : World) (agent : Agent) : Primitive → Effect
  | .move =>
      let origin := agent.position
      let attempted := origin.step agent.heading
      if world.grid.contains attempted then
        ⟨.moved attempted, { agent with position := attempted }, none⟩
      else ⟨.blocked origin attempted, agent, some (.outOfBounds origin attempted)⟩
  | .turn turn =>
      let heading := agent.heading.turned turn
      ⟨.turned turn heading, { agent with heading }, none⟩

/-- The effect of an action that the budget does not allow. -/
def overspend (world : World) (agent : Agent) : Effect :=
  ⟨.stepLimitExceeded world.maxSteps, agent, some (.stepLimit world.maxSteps)⟩

/-- The effect of the action due after `taken` performed ones. -/
def effect (world : World) (taken : Nat) (agent : Agent) (p : Primitive) : Effect :=
  if world.maxSteps ≤ taken then world.overspend agent else world.perform agent p

end World

/-- A program under way in a world. -/
structure Run where
  world : World
  agent : Agent
  cursor : Cursor
  /-- Actions performed, a blocked move included. -/
  taken : Nat
  /-- Steps made. -/
  index : Nat
  halt? : Option Halt
  deriving DecidableEq

namespace Run

/-- The run of a program before its first step. -/
def start (program : Program) (world : World) : Run :=
  ⟨world, world.start, .start program, 0, 0, none⟩

/-- The step that an action makes, and the run after it. -/
def advance (run : Run) (p : Primitive) (line : Nat) (cursor : Cursor) : Step × Run :=
  let effect := run.world.effect run.taken run.agent p
  (⟨run.index, line, effect.agent, effect.entry⟩,
    { run with
      agent := effect.agent
      cursor
      taken := if run.world.maxSteps ≤ run.taken then run.taken else run.taken + 1
      index := run.index + 1
      halt? := effect.halt? })

/-- The next step and the run after it; nothing if the run is over. -/
def next (run : Run) : Except BadIndex (Option (Step × Run)) :=
  if run.halt?.isSome then .ok none
  else match run.cursor.next with
    | .error bad => .error bad
    | .ok none => .ok none
    | .ok (some (p, line, cursor)) => .ok (some (run.advance p line cursor))

/-- A halted run makes no step. -/
theorem next_of_halted {run : Run} (h : run.halt?.isSome = true) : run.next = .ok none := by
  simp [next, h]

/-- The next step of a run that is not halted is the one its next action makes. -/
theorem next_of_cursor {run : Run} (h : run.halt? = none) {p : Primitive} {line : Nat}
    {cursor : Cursor} (due : run.cursor.next = .ok (some (p, line, cursor))) :
    run.next = .ok (some (run.advance p line cursor)) := by
  simp [next, h, due]

/-- A bound on the number of steps to come. -/
def budget (run : Run) : Nat :=
  if run.halt?.isSome then 0 else run.world.maxSteps - run.taken + 1

theorem budget_advance_lt (run : Run) (h : run.halt? = none) (p : Primitive) (line : Nat)
    (cursor : Cursor) : (run.advance p line cursor).2.budget < run.budget := by
  by_cases spent : run.world.maxSteps ≤ run.taken
  · simp [advance, budget, World.effect, World.overspend, spent, h]
  · simp only [advance, budget, spent, h, if_false, Option.isSome_none, Bool.false_eq_true]
    split <;> omega

/-- Each step uses up part of the budget. -/
theorem budget_lt_of_next {run after : Run} {step : Step}
    (h : run.next = .ok (some (step, after))) : after.budget < run.budget := by
  unfold next at h
  split at h
  · simp at h
  next running =>
    split at h
    · simp at h
    · simp at h
    next p line cursor _ =>
      have same : run.advance p line cursor = (step, after) := by simpa using h
      have bound := budget_advance_lt run (by simpa using running) p line cursor
      simpa [same] using bound

/-- The remaining steps of a run behind some that were made, and the run after
them. -/
def drain (run : Run) (made : Array Step) : Array Step × Run :=
  match _h : run.next with
  | .ok (some (step, after)) => after.drain (made.push step)
  | .ok none => (made, run)
  | .error _ => (made, run)
termination_by run.budget
decreasing_by exact budget_lt_of_next _h

end Run

/-- Everything a finished run left behind. -/
structure RunReport where
  finalAgent : Agent
  halt? : Option Halt
  steps : Array Step

namespace RunReport

def log (report : RunReport) : Array LogEntry :=
  report.steps.map (·.entry)

/-- Run a program to its end. -/
def ofProgram (program : Program) (world : World) : RunReport :=
  let (steps, after) := (Run.start program world).drain #[]
  ⟨after.agent, after.halt?, steps⟩

end RunReport

end Rocket

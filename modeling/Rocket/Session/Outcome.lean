import Rocket.Finding.Collection
import Rocket.Run.LogEntry

/-!
# Outcomes

How a run ended and what the learner is told about it.
-/

namespace Rocket

/-- How a run ended. -/
inductive Status where
  /-- Every action was performed. -/
  | completed
  /-- A move would have left the grid. -/
  | outOfBounds
  /-- The budget ran out. -/
  | stepLimit
  /-- The program was refused; nothing was performed. -/
  | syntaxErrors
  /-- The run broke down. -/
  | fault
  /-- The run was cancelled. -/
  | aborted
  deriving DecidableEq

namespace Status

/-- How a run ended that came to its own end. -/
def ofHalt : Option Halt → Status
  | none => .completed
  | some (.outOfBounds _ _) => .outOfBounds
  | some (.stepLimit _) => .stepLimit

/-- Whether the run came to its own end, so that it may be won. -/
def isExecuted : Status → Bool
  | .completed | .outOfBounds | .stepLimit => true
  | .syntaxErrors | .fault | .aborted => false

/-- The name in event records. -/
def name : Status → String
  | .completed => "Completed"
  | .outOfBounds => "OutOfBounds"
  | .stepLimit => "StepLimit"
  | .syntaxErrors => "SyntaxErrors"
  | .fault => "Fault"
  | .aborted => "Aborted"

@[simp]
theorem isExecuted_ofHalt (halt? : Option Halt) : (ofHalt halt?).isExecuted = true := by
  match halt? with
  | none | some (.outOfBounds _ _) | some (.stepLimit _) => rfl

end Status

/-- What the learner is told. -/
inductive Verdict where
  | won
  | lost
  | aborted
  deriving DecidableEq

/-- The result of a run. -/
structure Outcome where
  finalAgent : Agent
  log : Array LogEntry
  won : Bool
  status : Status
  findings : Findings
  sourceHash : String

namespace Outcome

def verdict (outcome : Outcome) : Verdict :=
  if outcome.status = .aborted then .aborted
  else if outcome.won then .won
  else .lost

/-- The result in one sentence. -/
def headline (outcome : Outcome) : String :=
  match outcome.verdict with
  | .won => "The rocket reached the star!"
  | .aborted => "Run cancelled."
  | .lost =>
      match outcome.status with
      | .syntaxErrors => "The program has errors and was not run."
      | .fault => "Something went wrong while running the program."
      | _ => "The rocket did not reach the star. Try again!"

/-- The result and where the rocket ended up. -/
def text (outcome : Outcome) : String :=
  outcome.headline ++ "\nRocket at " ++ outcome.finalAgent.text

end Outcome

end Rocket

import Rocket.Board.World

/-!
# The run log

What happened in a run: an entry for each action, and entries for what ended the
run from outside.
-/

namespace Rocket

/-- One line of a run's log. -/
inductive LogEntry where
  /-- The rocket moved to a cell. -/
  | moved (target : Position)
  /-- The rocket turned and faces `heading` now. -/
  | turned (turn : Turn) (heading : Heading)
  /-- A move would have left the grid. -/
  | blocked (origin attempted : Position)
  /-- The budget of actions ran out. -/
  | stepLimitExceeded (limit : Nat)
  /-- The run broke down. -/
  | executionError (message : String)
  /-- A line kept the program from being run. -/
  | syntaxError (line : Nat) (message : String)
  deriving DecidableEq

namespace LogEntry

/-- Whether the entry is anything but a performed action. -/
def isFailure : LogEntry → Bool
  | .moved _ | .turned _ _ => false
  | _ => true

def text : LogEntry → String
  | .moved target => "Moved to " ++ target.text
  | .turned turn heading => "Turned " ++ turn.text ++ ", now facing " ++ heading.text
  | .blocked origin attempted =>
      "Cannot move from " ++ origin.text ++ " to " ++ attempted.text
        ++ ": outside the grid. Run stopped."
  | .stepLimitExceeded limit => "Step limit of " ++ toString limit ++ " reached. Run stopped."
  | .executionError message => "Execution error: " ++ message
  | .syntaxError line message =>
      "Syntax error on line " ++ toString line ++ ": " ++ message

end LogEntry

/-- Why a run stopped before its program was over. -/
inductive Halt where
  | outOfBounds (origin attempted : Position)
  | stepLimit (limit : Nat)
  deriving DecidableEq

def Halt.text : Halt → String
  | .outOfBounds origin attempted =>
      "out of bounds moving from " ++ origin.text ++ " to " ++ attempted.text
  | .stepLimit limit => "step limit of " ++ toString limit ++ " exhausted"

/-- One action of a run and the rocket right after it. -/
structure Step where
  /-- The number of steps before this one. -/
  index : Nat
  /-- The source line of the statement that asked for the action. -/
  line : Nat
  agent : Agent
  entry : LogEntry
  deriving DecidableEq

namespace Step

/-- The number of a step in a field of four, counted from one. -/
def numberField (n : Nat) : String :=
  let digits := toString n
  String.ofList (List.replicate (4 - digits.length) ' ') ++ digits

/-- The step as a line of a report. -/
def text (step : Step) : String :=
  numberField (step.index + 1) ++ ". [line " ++ toString step.line ++ "] " ++ step.entry.text

end Step

end Rocket

import Rocket.Encoding.Board
import Rocket.Encoding.Program
import Rocket.Session.Outcome

/-!
# Documents of runs

The JSON form of log entries, steps and outcomes.
-/

namespace Rocket

/-- An object that says by its first member which kind of thing it is. -/
def Json.tagged (kind : String) (members : List (String × Json)) : Json :=
  .ofMembers (("kind", .ofText kind) :: members)

def LogEntry.toJson : LogEntry → Json
  | .moved target => .tagged "moved" [("to", target.toJson)]
  | .turned turn heading =>
      .tagged "turned" [("turn", turn.toJson), ("heading", heading.toJson)]
  | .blocked origin attempted =>
      .tagged "blocked" [("from", origin.toJson), ("attempted", attempted.toJson)]
  | .stepLimitExceeded limit => .tagged "stepLimitExceeded" [("limit", .ofNat limit)]
  | .executionError message => .tagged "executionError" [("message", .ofText message)]
  | .syntaxError line message =>
      .tagged "syntaxError" [("line", .ofNat line), ("message", .ofText message)]

def Step.toJson (step : Step) : Json :=
  .ofMembers
    [("index", .ofNat step.index), ("line", .ofNat step.line),
      ("snapshot", step.agent.toJson), ("entry", step.entry.toJson)]

def Halt.toJson : Halt → Json
  | .outOfBounds origin attempted =>
      .tagged "outOfBounds" [("from", origin.toJson), ("attempted", attempted.toJson)]
  | .stepLimit limit => .tagged "stepLimit" [("limit", .ofNat limit)]

def Status.toJson : Status → Json
  | .completed => .ofText "completed"
  | .outOfBounds => .ofText "outOfBounds"
  | .stepLimit => .ofText "stepLimit"
  | .syntaxErrors => .ofText "syntaxErrors"
  | .fault => .ofText "fault"
  | .aborted => .ofText "aborted"

def Verdict.toJson : Verdict → Json
  | .won => .ofText "won"
  | .lost => .ofText "lost"
  | .aborted => .ofText "aborted"

def Outcome.toJson (outcome : Outcome) : Json :=
  .ofMembers
    [("final_state", outcome.finalAgent.toJson),
      ("log", .ofList LogEntry.toJson outcome.log.toList),
      ("won", .bool outcome.won),
      ("status", outcome.status.toJson),
      ("diagnostics", outcome.findings.toJson),
      ("source_hash", .ofText outcome.sourceHash)]

end Rocket

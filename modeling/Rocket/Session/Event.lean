import Rocket.Session.Outcome

/-!
# Events and faults

What a session reports about its runs while they happen, and how a breakdown of a
run is told.
-/

namespace Rocket

/-- The part of a run that broke down. -/
inductive Stage where
  | parse
  | execute
  deriving DecidableEq

def Stage.text : Stage → String
  | .parse => "parser"
  | .execute => "executor"

/-- A breakdown of a run. -/
structure Fault where
  stage : Stage
  message : String
  deriving DecidableEq

def Fault.text (fault : Fault) : String :=
  fault.stage.text ++ " panicked: " ++ fault.message

/-- What a breakdown carries: a message, or something that is none. -/
inductive Payload where
  | message (text : String)
  | other
  deriving DecidableEq

def Payload.text : Payload → String
  | .message text => text
  | .other => "unknown panic payload"

/-- How important an event is. -/
inductive Importance where
  | debug
  | info
  | warn
  deriving DecidableEq

def Importance.text : Importance → String
  | .debug => "DEBUG"
  | .info => "INFO"
  | .warn => "WARN"

/-- Something that happens in a session. -/
inductive Event where
  | programParsed (statements actions warnings : Nat)
  /-- A step ends its run; `taken` actions have been performed. -/
  | runHalted (line : Nat) (halt : Halt) (taken : Nat)
  | stepMade (index line : Nat) (entry : LogEntry)
  | runCancelled (steps : Nat)
  | runFinished (status : Status) (won : Bool) (entries : Nat)
  /-- A run was to start while another was under way. -/
  | runRefused
  | breakdownCaught
  | faultRecorded (fault : Fault)
  deriving DecidableEq

namespace Event

def importance : Event → Importance
  | .programParsed _ _ _ | .runHalted _ _ _ | .stepMade _ _ _ | .breakdownCaught => .debug
  | .runCancelled _ | .runFinished _ _ _ => .info
  | .runRefused | .faultRecorded _ => .warn

def message : Event → String
  | .programParsed _ _ _ => "program parsed"
  | .runHalted _ _ _ => "run halted"
  | .stepMade _ _ _ => "step"
  | .runCancelled _ => "run cancelled"
  | .runFinished _ _ _ => "run finished"
  | .runRefused => "run refused: another run is in progress"
  | .breakdownCaught => "panic caught at session boundary"
  | .faultRecorded _ => "fault caught at session boundary"

/-- The data of an event by name. -/
def fields : Event → List (String × String)
  | .programParsed statements actions warnings =>
      [("statements", toString statements), ("actions", toString actions),
        ("warnings", toString warnings)]
  | .runHalted line halt taken =>
      [("line", toString line), ("halt", halt.text), ("steps", toString taken)]
  | .stepMade index line entry =>
      [("index", toString index), ("line", toString line), ("entry", entry.text)]
  | .runCancelled steps => [("steps", toString steps)]
  | .runFinished status won entries =>
      [("status", status.name), ("won", if won then "true" else "false"),
        ("entries", toString entries)]
  | .runRefused | .breakdownCaught => []
  | .faultRecorded fault => [("error", fault.text)]

end Event

/-- An event and the run it belongs to, if it belongs to one. -/
structure Notice where
  event : Event
  label? : Option String
  deriving DecidableEq

/-- An observer of a session. It collects notices, and it may hold a payload with
which the next run that halts is made to break down. -/
structure Monitor where
  notices : Array Notice
  trap? : Option Payload

namespace Monitor

/-- An observer that only looks on. -/
def passive : Monitor :=
  ⟨#[], none⟩

def record (monitor : Monitor) (label? : Option String) (event : Event) : Monitor :=
  { monitor with notices := monitor.notices.push ⟨event, label?⟩ }

@[simp]
theorem trap?_record (monitor : Monitor) (label? : Option String) (event : Event) :
    (monitor.record label? event).trap? = monitor.trap? := rfl

end Monitor

end Rocket

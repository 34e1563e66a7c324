import Rocket.Level.Basic
import Rocket.Reading.Program
import Rocket.Session.Attempt
import Rocket.Text.Sha256

/-!
# Sessions

A session owns a level and lets sources run in it, one at a time.
-/

namespace Rocket

/-- A level, its world, and whether an attempt is under way. -/
structure Session where
  level : Level
  world : World
  running : Bool

/-- What comes of starting a source: an attempt, unless another is under way. -/
structure Started where
  attempt? : Option Attempt
  session : Session
  monitor : Monitor

namespace Session

/-- A session of the reference level. -/
def reference : Session :=
  ⟨.reference, .reference, false⟩

/-- A session of a level that can be played. -/
def ofLevel (level : Level) : Except LevelError Session :=
  level.world.map fun world => ⟨level, world, false⟩

/-- The session after its attempt is over. -/
def release (session : Session) : Session :=
  { session with running := false }

/-- An attempt at a source of which nothing is read yet. -/
def newAttempt (session : Session) (source : String) : Attempt where
  sourceHash := Sha256.hexOfText source
  delay := session.level.stepDelay.toNat
  findings := .empty
  log := #[]
  agent := session.world.start
  run? := none
  halt? := none
  status? := none

/-- The log of a program that is refused: its errors in source order. -/
def refusalLog (findings : Findings) : Array LogEntry :=
  ((findings.sorted.filter Finding.isError).map fun finding =>
    .syntaxError finding.span.line finding.message).toArray

/-- An attempt at a source that has been read. A program is ready to run; a source
without one has failed. -/
def prepare (session : Session) (source : String) (parsed : Parsed) (monitor : Monitor) :
    Attempt × Monitor :=
  let attempt := { session.newAttempt source with findings := parsed.findings }
  match parsed.program? with
  | some program =>
      ({ attempt with run? := some (.start program session.world) },
        attempt.notify monitor (.programParsed program.statements.length program.actionCount
          parsed.findings.totalWarnings))
  | none =>
      ({ attempt with
          log := refusalLog parsed.findings
          status? := some .syntaxErrors },
        monitor)

/-- Start a source. While an attempt is under way, no other is started. -/
def start (session : Session) (source : String) (monitor : Monitor) : Started :=
  if session.running then
    ⟨none, session, monitor.record none .runRefused⟩
  else
    let parsed := Parsed.ofSource (.ofText Source.defaultName source) session.level.mode
    let (attempt, monitor) := session.prepare source parsed monitor
    ⟨some attempt, { session with running := true }, monitor⟩

/-- What comes of running a source to its end. -/
structure Ran where
  outcome? : Option Outcome
  session : Session
  monitor : Monitor

/-- Start a source and make all its steps. -/
def run (session : Session) (source : String) (monitor : Monitor) : Ran :=
  match session.start source monitor with
  | ⟨none, session, monitor⟩ => ⟨none, session, monitor⟩
  | ⟨some attempt, session, monitor⟩ =>
      let (outcome, monitor) := attempt.finish session.world monitor
      ⟨some outcome, session.release, monitor⟩

end Session

/-- The program that a learner starts from, line by line. -/
def starterLines : List String :=
  ["// Guide the rocket to the star!",
    "// Commands:",
    "// move() - step forward",
    "// turnRight() - turn right",
    "// turnLeft() - turn left",
    "// repeat(n, [command1, command2]) - repeat n times",
    "",
    "move();",
    "turnRight();",
    "move();"]

/-- The program that a learner starts from. -/
def starterProgram : String :=
  String.join (starterLines.map (· ++ "\n"))

end Rocket

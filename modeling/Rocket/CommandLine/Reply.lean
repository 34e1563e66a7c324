import Rocket.Board.Picture
import Rocket.CommandLine.Invocation
import Rocket.Encoding.Outcome
import Rocket.Json.Printer
import Rocket.Level.Document
import Rocket.Session.Basic

/-!
# Replies

What the command line tool prints, and the code it exits with, as a function of
what it is asked and of the files it reads.
-/

namespace Rocket

/-- Why a file has no text. -/
inductive ReadError where
  | missing
  /-- The bytes are not UTF-8. -/
  | notText
  | other (reason : String)
  deriving DecidableEq

def ReadError.text : ReadError → String
  | .missing => "No such file or directory (os error 2)"
  | .notText => "stream did not contain valid UTF-8"
  | .other reason => reason

/-- The texts of the files at hand. -/
abbrev Files := String → Except ReadError String

/-- What the tool does to be seen. -/
inductive Display where
  | out (text : String)
  | err (text : String)
  /-- Wait for some milliseconds. -/
  | pause (delay : Nat)
  deriving DecidableEq

/-- What the tool shows and the code it exits with. -/
structure Reply where
  shown : List Display
  exit : UInt8

namespace Reply

/-- All that goes to the standard output. -/
def stdout (reply : Reply) : String :=
  String.join (reply.shown.filterMap fun | .out text => some text | _ => none)

/-- All that goes to the standard error output. -/
def stderr (reply : Reply) : String :=
  String.join (reply.shown.filterMap fun | .err text => some text | _ => none)

/-- The exit code for success. -/
def success : UInt8 := 0

/-- The exit code for input that cannot be used. -/
def failure : UInt8 := 1

/-- The exit code for a run that is not won. -/
def notWon : UInt8 := 2

/-- The exit code for arguments that are not understood. -/
def usage : UInt8 := 2

def ofWon (won : Bool) : UInt8 :=
  if won then success else notWon

/-- A reply that only says why there is no other. -/
def ofError (reason : String) : Reply :=
  ⟨[.err (reason ++ "\n")], failure⟩

def ofResult : Except String Reply → Reply
  | .ok reply => reply
  | .error reason => ofError reason

/-- The text of a file, or why there is none. -/
def readFile (files : Files) (path : String) : Except String String :=
  (files path).mapError fun error => "read " ++ path ++ ": " ++ error.text

/-- The level at a path; the reference level if there is no path. -/
def readLevel (files : Files) : Option String → Except String Level
  | none => .ok .reference
  | some path => do
      let document ← readFile files path
      (Level.read document).mapError fun error => "load level " ++ path ++ ": " ++ error.text

theorem readFile_of_ok {files : Files} {path text : String} (readable : files path = .ok text) :
    readFile files path = .ok text := by
  rw [readFile, readable]
  rfl

/-- What to say of a level that cannot be played. -/
def invalidLevel (error : LevelError) : String :=
  "invalid level: " ++ error.text

theorem mapError_invalidLevel_of_ok {level : Level} {session : Session}
    (valid : Session.ofLevel level = .ok session) :
    (Session.ofLevel level).mapError invalidLevel = .ok session := by
  rw [valid]
  rfl

def busy : String :=
  "a run is already in progress"

/-- A step and the board after it. Every step but the first waits for its turn. -/
def showStep (world : World) (delay : Nat) (step : Step) : List Display :=
  (if step.index = 0 ∨ delay = 0 then [] else [.pause delay])
    ++ [.out (step.text ++ "\n"), .out (world.picture step.agent ++ "\n")]

/-- The log of a run that cannot be told by its steps. -/
def showLog (outcome : Outcome) : List Display :=
  match outcome.status with
  | .syntaxErrors | .fault => outcome.log.toList.map fun entry => .out (entry.text ++ "\n")
  | _ => []

/-- An attempt shown from its findings to its outcome. -/
def showAttempt (session : Session) (attempt : Attempt) : Reply :=
  let played := attempt.playOut .passive
  let (outcome, _) := played.attempt.finish session.world played.monitor
  ⟨(attempt.findings.sorted.map fun finding => .err finding.report)
      ++ .out (session.world.picture attempt.agent ++ "\n")
      :: played.steps.toList.flatMap (showStep session.world attempt.delay)
      ++ showLog outcome
      ++ [.out (outcome.text ++ "\n")],
    ofWon outcome.won⟩

/-- Run a source in a level. -/
def run (level : Level) (source : String) (json : Bool) : Except String Reply := do
  let session ← (Session.ofLevel level).mapError invalidLevel
  if json then
    match (session.run source .passive).outcome? with
    | none => .error busy
    | some outcome => return ⟨[.out (outcome.toJson.pretty ++ "\n")], ofWon outcome.won⟩
  else
    match (session.start source .passive).attempt? with
    | none => .error busy
    | some attempt => return showAttempt session attempt

/-- Check a source that has the name of its file. -/
def check (file source : String) (mode : Mode) : Reply :=
  let parsed := Parsed.ofSource (.ofText file source) mode
  let commands := match parsed.program? with
    | none => 0
    | some program => program.statements.length
  ⟨(parsed.findings.sorted.map fun finding => .err finding.report)
      ++ [.out (file ++ ": " ++ toString commands ++ " command(s), "
        ++ parsed.findings.summary ++ "\n")],
    if parsed.findings.hasErrors then failure else success⟩

/-- Draw the board of a level. -/
def render (level : Level) : Except String Reply := do
  let world ← level.world.mapError invalidLevel
  return ⟨[.out (world.picture world.start)], success⟩

/-- The level with what the command line says of it. -/
def adjust (level : Level) (delay? : Option Nat) (strict : Bool) : Level :=
  { level with
    mode := if strict then .strict else level.mode
    stepDelay := match delay? with
      | none => level.stepDelay
      | some delay => UInt64.ofNat delay }

/-- The name and the version of the tool. -/
def versionLine : String :=
  "pilot 0.1.0"

/-- The reply to an invocation. -/
def ofInvocation (files : Files) : Invocation → Reply
  | .run file level? delay? strict json => ofResult do
      let level ← readLevel files level?
      let source ← readFile files file
      run (adjust level delay? strict) source json
  | .check file strict => ofResult do
      let source ← readFile files file
      return check file source (if strict then .strict else .permissive)
  | .render level? => ofResult do
      let level ← readLevel files level?
      render level
  | .version => ⟨[.out (versionLine ++ "\n")], success⟩

end Reply

end Rocket

import Rocket.CommandLine.Reply

/-!
# The command line tool

Reads the files that an invocation names, and shows the reply as it comes.
-/

namespace Rocket.Main

/-- The text of a file. -/
def readText (path : String) : IO (Except ReadError String) := do
  match ← (IO.FS.readBinFile path).toBaseIO with
  | .ok bytes =>
      match String.fromUTF8? bytes with
      | some text => return .ok text
      | none => return .error .notText
  | .error (.noFileOrDirectory ..) => return .error .missing
  | .error error => return .error (.other (toString error))

/-- Look a file up among those that were read. -/
def lookUp (texts : List (String × Except ReadError String)) : Files :=
  fun path => (texts.lookup path).getD (.error .missing)

def display : Display → IO Unit
  | .out text => IO.print text
  | .err text => IO.eprint text
  | .pause delay => IO.sleep (UInt32.ofNat (min delay (UInt32.size - 1)))

end Rocket.Main

open Rocket in
def main (args : List String) : IO UInt32 := do
  match Invocation.ofArguments? args with
  | none =>
      IO.eprintln "usage: pilot run|check|render|--version"
      return Reply.usage.toUInt32
  | some invocation =>
      let texts ← invocation.files.mapM fun path => return (path, ← Main.readText path)
      let reply := Reply.ofInvocation (Main.lookUp texts) invocation
      reply.shown.forM Main.display
      return reply.exit.toUInt32

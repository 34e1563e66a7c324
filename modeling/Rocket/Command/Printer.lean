import Rocket.Command.Basic

/-!
# Printed programs

The canonical text of commands and programs: one statement on a line, each line
ended by a newline. The text is built as a list of characters, the form in which
sources are scanned.
-/

namespace Rocket

/-- The characters of an action's call. -/
def Primitive.chars (p : Primitive) : List Char :=
  p.text.toList

namespace Command

/-- The actions of a command list, with a comma and a space between neighbours. -/
def bodyChars (body : List Primitive) : List Char :=
  [',', ' '].intercalate (body.map Primitive.chars)

/-- The characters of the command as a statement. -/
def chars : Command → List Char
  | .primitive p => p.chars ++ [';']
  | .loop count body =>
      "repeat(".toList ++ Nat.toDigits 10 count.toNat ++ ", [".toList ++ bodyChars body
        ++ "]);".toList

theorem chars_primitive (p : Primitive) : (primitive p).chars = p.chars ++ [';'] := rfl

theorem chars_loop (count : UInt32) (body : List Primitive) :
    (loop count body).chars =
      "repeat(".toList ++ Nat.toDigits 10 count.toNat ++ ", [".toList ++ bodyChars body
        ++ "]);".toList := rfl

/-- The command as a statement of a source text. -/
def text (command : Command) : String :=
  String.ofList command.chars

example : (loop 3 [.move, .turn .right]).text = "repeat(3, [move(), turnRight()]);" := by
  decide +kernel

example : (loop 2 []).text = "repeat(2, []);" := by
  decide +kernel

end Command

namespace Program

/-- The characters of the program: each command and a newline. -/
def chars (program : Program) : List Char :=
  program.commands.flatMap fun command => command.chars ++ ['\n']

/-- The commands of the program, one to a line. -/
def text (program : Program) : String :=
  String.ofList program.chars

@[simp]
theorem chars_nil : chars ⟨[]⟩ = [] := rfl

@[simp]
theorem chars_cons (s : Statement) (rest : List Statement) :
    chars ⟨s :: rest⟩ = s.command.chars ++ '\n' :: chars ⟨rest⟩ := by
  simp [chars, commands]

end Program

end Rocket

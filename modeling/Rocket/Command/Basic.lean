import Rocket.Board.Heading
import Rocket.Text.Span

/-!
# Programs

A program is a list of statements, one to a source line. A statement performs
one action, or repeats a list of actions; repetition does not nest.
-/

namespace Rocket

/-- A single action of the rocket. -/
inductive Primitive where
  | move
  | turn (t : Turn)
  deriving DecidableEq

namespace Primitive

def all : List Primitive :=
  [.move, .turn .right, .turn .left]

/-- The word that names the action. -/
def name : Primitive → String
  | .move => "move"
  | .turn .right => "turnRight"
  | .turn .left => "turnLeft"

/-- The action as a call. -/
def text (p : Primitive) : String :=
  p.name ++ "()"

/-- The action that a call stands for. -/
def ofText? (call : List Char) : Option Primitive :=
  all.find? fun p => p.text.toList = call

theorem ofText?_eq_some_iff {call : List Char} {p : Primitive} :
    ofText? call = some p ↔ call = p.text.toList := by
  constructor
  · intro h
    have found := List.find?_some h
    exact (of_decide_eq_true found).symm
  · rintro rfl
    match p with
    | .move | .turn .right | .turn .left => decide

end Primitive

/-- What one statement asks for. -/
inductive Command where
  /-- Perform an action once. -/
  | primitive (p : Primitive)
  /-- Perform the actions of `body` in order, `count` times over. -/
  | loop (count : UInt32) (body : List Primitive)
  deriving DecidableEq

/-- How many actions the command performs if nothing stops it. -/
def Command.actionCount : Command → Nat
  | .primitive _ => 1
  | .loop count body => count.toNat * body.length

/-- A command and its place in the source. -/
structure Statement where
  command : Command
  span : Span
  deriving DecidableEq

/-- Statements in source order. -/
structure Program where
  statements : List Statement
  deriving DecidableEq

namespace Program

def empty : Program :=
  ⟨[]⟩

def commands (program : Program) : List Command :=
  program.statements.map (·.command)

/-- How many actions the program performs if nothing stops it. -/
def actionCount (program : Program) : Nat :=
  (program.commands.map Command.actionCount).foldr (· + ·) 0

@[simp]
theorem actionCount_nil : actionCount ⟨[]⟩ = 0 := rfl

@[simp]
theorem actionCount_cons (s : Statement) (rest : List Statement) :
    actionCount ⟨s :: rest⟩ = s.command.actionCount + actionCount ⟨rest⟩ := by
  simp [actionCount, commands]

end Program

end Rocket

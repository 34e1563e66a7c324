import Rocket.Command.Basic

/-!
# Cursors

A place in a program between two actions. A cursor unrolls repetitions lazily: it
counts the completed iterations of the current repetition and the actions done in
the current iteration.
-/

namespace Rocket

/-- An index that lies outside the list it was meant for. -/
structure BadIndex where
  length : Nat
  index : Nat
  deriving DecidableEq

def BadIndex.text (bad : BadIndex) : String :=
  "index out of bounds: the len is " ++ toString bad.length ++ " but the index is "
    ++ toString bad.index

/-- A place in a program. -/
structure Cursor where
  /-- The statements that are not over, the current one first. -/
  pending : List Statement
  /-- Completed iterations of the current statement. -/
  iteration : Nat
  /-- Actions performed of the current iteration. -/
  position : Nat
  deriving DecidableEq

namespace Cursor

/-- The place before some statements. -/
def ofStatements (statements : List Statement) : Cursor :=
  ⟨statements, 0, 0⟩

/-- The place before a program's first action. -/
def start (program : Program) : Cursor :=
  ofStatements program.statements

/-- The place after action `position` of an iteration, in a repetition that is the
first of `pending`. -/
def behind (pending : List Statement) (length iteration position : Nat) : Cursor :=
  if position + 1 = length then ⟨pending, iteration + 1, 0⟩
  else ⟨pending, iteration, position + 1⟩

/-- The next action, its source line, and the place behind it; nothing at the end
of the statements. Repetitions that have no action left are passed over. -/
def nextOf : List Statement → (iteration position : Nat) →
    Except BadIndex (Option (Primitive × Nat × Cursor))
  | [], _, _ => .ok none
  | statement :: rest, iteration, position =>
      match statement.command with
      | .primitive p => .ok (some (p, statement.span.line, ofStatements rest))
      | .loop count body =>
          if body.isEmpty ∨ count.toNat ≤ iteration then nextOf rest 0 0
          else match body[position]? with
            | none => .error ⟨body.length, position⟩
            | some p =>
                .ok (some (p, statement.span.line,
                  behind (statement :: rest) body.length iteration position))

/-- The next action, its source line, and the place behind it. -/
def next (cursor : Cursor) : Except BadIndex (Option (Primitive × Nat × Cursor)) :=
  nextOf cursor.pending cursor.iteration cursor.position

@[simp]
theorem next_nil (iteration position : Nat) : next ⟨[], iteration, position⟩ = .ok none := rfl

end Cursor

end Rocket

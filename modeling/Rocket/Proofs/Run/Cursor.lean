import Rocket.Run.Cursor

/-!
# Cursors and unrolled programs

A program unrolls to a list of actions, each with the line that asked for it. A
cursor stands before some end of that list: its next action is the first one there,
and the place behind it is before the rest.

## Implementation notes

What remains of a repetition is its remaining iterations, the current one included,
without the actions done in the current one. This needs no case for the end of an
iteration: a body without its last action is followed by the next body.
-/

namespace Rocket

/-- The actions of a command when nothing stops it. -/
def Command.actions : Command → List Primitive
  | .primitive p => [p]
  | .loop count body => (List.replicate count.toNat body).flatten

/-- The actions of a statement, each with its line. -/
def Statement.actions (statement : Statement) : List (Primitive × Nat) :=
  statement.command.actions.map (·, statement.span.line)

/-- The actions of a program in order, each with its line: every repetition is
replaced by the copies of its body. -/
def Program.unrolled (program : Program) : List (Primitive × Nat) :=
  program.statements.flatMap Statement.actions

namespace Command

/-- What a command still asks for after some completed iterations and some actions of
the current one. -/
def remaining (iteration position : Nat) : Command → List Primitive
  | .primitive p => [p]
  | .loop count body => (List.replicate (count.toNat - iteration) body).flatten.drop position

theorem remaining_zero (command : Command) : command.remaining 0 0 = command.actions := by
  cases command <;> rfl

theorem remaining_of_isEmpty {count : UInt32} {body : List Primitive} {iteration position : Nat}
    (ended : body.isEmpty = true ∨ count.toNat ≤ iteration) :
    (loop count body).remaining iteration position = [] := by
  obtain empty | done := ended
  · rw [List.isEmpty_iff] at empty
    simp [remaining, empty]
  · rw [remaining, Nat.sub_eq_zero_of_le done]
    simp

/-- A repetition that is not over goes on with an action of the current iteration. -/
theorem remaining_of_lt {count : UInt32} {body : List Primitive} {iteration position : Nat}
    (more : iteration < count.toNat) (inside : position < body.length) :
    (loop count body).remaining iteration position =
      body[position] :: (if position + 1 = body.length
        then (loop count body).remaining (iteration + 1) 0
        else (loop count body).remaining iteration (position + 1)) := by
  have left : count.toNat - iteration = count.toNat - (iteration + 1) + 1 := by omega
  have current : ∀ position, position ≤ body.length →
      (loop count body).remaining iteration position =
        body.drop position ++ (loop count body).remaining (iteration + 1) 0 := by
    intro position bound
    rw [remaining, remaining, left, List.replicate_succ, List.flatten_cons, List.drop_zero,
      List.drop_append_of_le_length bound]
  rw [current position (Nat.le_of_lt inside), List.drop_eq_getElem_cons inside, List.cons_append]
  congr 1
  split
  next last => rw [last, List.drop_length, List.nil_append]
  next => rw [current (position + 1) inside]

end Command

namespace Cursor

/-- The actions before which the cursor stands, each with its line. -/
def remaining (cursor : Cursor) : List (Primitive × Nat) :=
  match cursor.pending with
  | [] => []
  | statement :: rest =>
      (statement.command.remaining cursor.iteration cursor.position).map (·, statement.span.line)
        ++ rest.flatMap Statement.actions

theorem remaining_cons (statement : Statement) (rest : List Statement)
    (iteration position : Nat) :
    remaining ⟨statement :: rest, iteration, position⟩ =
      (statement.command.remaining iteration position).map (·, statement.span.line)
        ++ rest.flatMap Statement.actions := rfl

/-- Whether the position lies in the body of the current repetition. -/
def IsInside (cursor : Cursor) : Prop :=
  ∀ statement rest count body, cursor.pending = statement :: rest →
    statement.command = .loop count body → body ≠ [] → cursor.position < body.length

theorem isInside_ofStatements (statements : List Statement) :
    (ofStatements statements).IsInside :=
  fun _ _ _ _ _ _ nonempty => List.length_pos_iff.2 nonempty

theorem remaining_ofStatements (statements : List Statement) :
    (ofStatements statements).remaining = statements.flatMap Statement.actions := by
  cases statements with
  | nil => rfl
  | cons statement rest =>
      rw [ofStatements, remaining_cons, Command.remaining_zero]
      rfl

theorem isInside_start (program : Program) : (start program).IsInside :=
  isInside_ofStatements program.statements

/-- A cursor starts before all actions of its program. -/
theorem remaining_start (program : Program) : (start program).remaining = program.unrolled :=
  remaining_ofStatements program.statements

/-- What asking a cursor for its next action comes to: the first of the remaining
actions and a cursor before the rest, or nothing if none remain. -/
def IsNextOf (cursor : Cursor) (result : Except BadIndex (Option (Primitive × Nat × Cursor))) :
    Prop :=
  match cursor.remaining with
  | [] => result = .ok none
  | (p, line) :: tail =>
      ∃ behind : Cursor, result = .ok (some (p, line, behind)) ∧ behind.IsInside ∧
        behind.remaining = tail

theorem isNextOf_of_cons {cursor behind : Cursor} {p : Primitive} {line : Nat}
    {tail : List (Primitive × Nat)} (shape : cursor.remaining = (p, line) :: tail)
    (inside : behind.IsInside) (rest : behind.remaining = tail) :
    cursor.IsNextOf (.ok (some (p, line, behind))) := by
  rw [IsNextOf, shape]
  exact ⟨behind, rfl, inside, rest⟩

/-- The place behind an action of a repetition is one in its body. -/
theorem isInside_behind {statement : Statement} {rest : List Statement} {count : UInt32}
    {body : List Primitive} {iteration position : Nat}
    (command : statement.command = .loop count body)
    (inside : position < body.length) :
    (behind (statement :: rest) body.length iteration position).IsInside := by
  have size : 0 < body.length := Nat.zero_lt_of_lt inside
  unfold behind
  split
  next =>
    rintro _ _ _ body' ⟨⟩ same -
    rw [command] at same
    obtain ⟨rfl, rfl⟩ := Command.loop.inj same
    exact size
  next inner =>
    rintro _ _ _ body' ⟨⟩ same -
    rw [command] at same
    obtain ⟨rfl, rfl⟩ := Command.loop.inj same
    exact Nat.lt_of_le_of_ne inside inner

/-- A cursor moves through the unrolled program one action at a time. -/
theorem isNextOf_next (cursor : Cursor) (inside : cursor.IsInside) :
    cursor.IsNextOf cursor.next := by
  obtain ⟨pending, iteration, position⟩ := cursor
  rw [next]
  fun_induction nextOf pending iteration position with
  | case1 => rfl
  | case2 statement rest iteration position p command =>
      apply isNextOf_of_cons ?_ (isInside_ofStatements rest) (remaining_ofStatements rest)
      rw [remaining_cons, command]
      rfl
  | case3 statement rest iteration position count body command ended ih =>
      have passed : remaining ⟨statement :: rest, iteration, position⟩ =
          remaining (ofStatements rest) := by
        rw [remaining_ofStatements, remaining_cons, command, Command.remaining_of_isEmpty ended]
        rfl
      rw [IsNextOf, passed]
      exact ih (isInside_ofStatements rest)
  | case4 statement rest iteration position count body command more outside =>
      rw [not_or, List.isEmpty_iff] at more
      have bound := inside statement rest count body rfl command more.1
      rw [List.getElem?_eq_none_iff] at outside
      exact absurd bound (Nat.not_lt.2 outside)
  | case5 statement rest iteration position count body command more p found =>
      rw [not_or, List.isEmpty_iff, Nat.not_le] at more
      obtain ⟨bound, rfl⟩ := List.getElem?_eq_some_iff.1 found
      apply isNextOf_of_cons ?_ (isInside_behind command bound) rfl
      rw [remaining_cons, command, Command.remaining_of_lt more.2 bound, List.map_cons,
        List.cons_append, behind]
      congr 1
      split <;> rw [remaining_cons, command]

end Cursor

end Rocket

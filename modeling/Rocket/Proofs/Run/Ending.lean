import Rocket.Proofs.Run.Trace

/-!
# Where traces end

The steps of a trace are numbered in order, and there is at most one for each action of
the program. A step that halts the run is the last one.
-/

namespace Rocket

/-- A program unrolls to as many actions as it counts. -/
theorem Program.length_unrolled (program : Program) :
    program.unrolled.length = program.actionCount := by
  obtain ⟨statements⟩ := program
  induction statements with
  | nil => rfl
  | cons statement rest ih =>
      have first : statement.actions.length = statement.command.actionCount := by
        cases command : statement.command with
        | primitive p => simp [Statement.actions, Command.actions, Command.actionCount, command]
        | loop count body =>
            simp [Statement.actions, Command.actions, Command.actionCount, command]
      rw [actionCount_cons, ← first, ← ih]
      simp [unrolled]

namespace World

variable {world : World} {performed : Nat} {agent : Agent} {actions : List (Primitive × Nat)}
variable {i : Nat} {step : Step}

/-- A trace goes on behind an action that the budget allows and the grid does not block. -/
theorem traceFrom_cases (world : World) (performed : Nat) (agent : Agent) (p : Primitive)
    (line : Nat) (rest : List (Primitive × Nat)) :
    ∃ step, step.index = performed ∧
      (world.traceFrom performed agent ((p, line) :: rest) = [step] ∨
        step.entry.halt? = none ∧
          world.traceFrom performed agent ((p, line) :: rest) =
            step :: world.traceFrom (performed + 1) step.agent rest) := by
  have same := world.halt?_entry_effect performed agent p
  rw [traceFrom_eq_effect]
  split
  next halts => exact ⟨_, rfl, .inl rfl⟩
  next goes => exact ⟨_, rfl, .inr ⟨same.trans (Option.not_isSome_iff_eq_none.1 goes), rfl⟩⟩

/-- Steps are numbered in order. -/
theorem index_of_traceFrom (h : (world.traceFrom performed agent actions)[i]? = some step) :
    step.index = performed + i := by
  induction actions generalizing performed agent i with
  | nil => simp [traceFrom] at h
  | cons action rest ih =>
      obtain ⟨p, line⟩ := action
      obtain ⟨first, index, single | ⟨-, more⟩⟩ :=
        traceFrom_cases world performed agent p line rest
      · rw [single] at h
        cases i with
        | zero => exact Option.some.inj h ▸ index
        | succ i => simp at h
      · rw [more] at h
        cases i with
        | zero => exact Option.some.inj h ▸ index
        | succ i => exact (ih h).trans (by omega)

/-- There is at most one step for each action. -/
theorem length_traceFrom_le (world : World) (performed : Nat) (agent : Agent)
    (actions : List (Primitive × Nat)) :
    (world.traceFrom performed agent actions).length ≤ actions.length := by
  induction actions generalizing performed agent with
  | nil => exact Nat.le_refl 0
  | cons action rest ih =>
      obtain ⟨p, line⟩ := action
      obtain ⟨first, -, single | ⟨-, more⟩⟩ := traceFrom_cases world performed agent p line rest
      · rw [single]
        exact Nat.succ_le_succ (Nat.zero_le _)
      · rw [more]
        exact Nat.succ_le_succ (ih _ _)

/-- A step that halts the run is the last one. -/
theorem length_traceFrom_of_halt (h : (world.traceFrom performed agent actions)[i]? = some step)
    (halts : step.entry.halt?.isSome = true) :
    (world.traceFrom performed agent actions).length = i + 1 := by
  induction actions generalizing performed agent i with
  | nil => simp [traceFrom] at h
  | cons action rest ih =>
      obtain ⟨p, line⟩ := action
      obtain ⟨first, -, single | ⟨going, more⟩⟩ :=
        traceFrom_cases world performed agent p line rest
      · rw [single] at h ⊢
        cases i with
        | zero => rfl
        | succ i => simp at h
      · rw [more] at h ⊢
        cases i with
        | zero =>
            obtain rfl := Option.some.inj h
            simp [going] at halts
        | succ i => exact congrArg (· + 1) (ih h)

/-- A trace has no more steps than its program has actions. -/
theorem length_trace_le (world : World) (program : Program) :
    (world.trace program).length ≤ program.actionCount := by
  rw [← Program.length_unrolled]
  exact length_traceFrom_le world 0 world.start program.unrolled

end World

end Rocket

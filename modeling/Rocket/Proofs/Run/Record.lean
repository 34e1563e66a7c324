import Rocket.Proofs.Run.Ending

/-!
# What a run records

The log of a run is a record of it. Every entry says what the world does to the rocket
that the entries before it leave behind, so that the rocket of every step can be found
by replaying the entries up to it. The last entry tells how the run came to its end.
-/

namespace Rocket

/-- An action that was performed does not halt the run. -/
theorem LogEntry.halt?_of_not_isFailure {entry : LogEntry} (h : entry.isFailure = false) :
    entry.halt? = none := by
  cases entry with
  | moved target => rfl
  | turned turn heading => rfl
  | blocked origin attempted => cases h
  | stepLimitExceeded limit => cases h
  | executionError message => cases h
  | syntaxError line message => cases h

/-- The rocket behind what an entry says happened to it in a world; nothing if this cannot
have happened there. -/
def LogEntry.replay? (world : World) (agent : Agent) : LogEntry → Option Agent
  | .moved target =>
      if target = agent.position.step agent.heading ∧ world.grid.contains target = true then
        some ⟨target, agent.heading⟩
      else none
  | .turned turn heading =>
      if heading = agent.heading.turned turn then some ⟨agent.position, heading⟩ else none
  | .blocked origin attempted =>
      if origin = agent.position ∧ attempted = origin.step agent.heading ∧
          world.grid.contains attempted = false then some agent
      else none
  | .stepLimitExceeded limit => if limit = world.maxSteps then some agent else none
  | .executionError _ | .syntaxError _ _ => some agent

namespace World

/-- The rocket behind what a log says happened to it from some state on. -/
def replay? (world : World) (agent : Agent) (log : List LogEntry) : Option Agent :=
  log.foldlM (LogEntry.replay? world) agent

/-- The rocket as some steps leave it. -/
def agentBehind (agent : Agent) (made : List Step) : Agent :=
  (made.getLast?.map (·.agent)).getD agent

@[simp]
theorem agentBehind_nil (agent : Agent) : agentBehind agent [] = agent := rfl

@[simp]
theorem agentBehind_cons (agent : Agent) (step : Step) (rest : List Step) :
    agentBehind agent (step :: rest) = agentBehind step.agent rest := by
  unfold agentBehind
  rw [List.getLast?_cons]
  cases rest.getLast? <;> rfl

@[simp]
theorem agentBehind_concat (agent : Agent) (made : List Step) (step : Step) :
    agentBehind agent (made ++ [step]) = step.agent := by
  simp [agentBehind]

theorem agent_viewAfter (world : World) (made : List Step) :
    (world.viewAfter made).agent = agentBehind world.start made := rfl

/-- What halts a run when some actions were performed. -/
inductive Halts (world : World) (performed : Nat) (agent : Agent) : LogEntry → Prop
  | blocked (outside : world.grid.contains (agent.position.step agent.heading) = false) :
      Halts world performed agent
        (.blocked agent.position (agent.position.step agent.heading))
  | spent (spent : world.maxSteps ≤ performed) :
      Halts world performed agent (.stepLimitExceeded world.maxSteps)

variable {world : World} {performed due : Nat} {agent : Agent} {steps rest : List Step}
variable {step : Step}

theorem Halts.replay? {entry : LogEntry} (h : world.Halts performed agent entry) :
    entry.replay? world agent = some agent := by
  cases h with
  | blocked outside => simp [LogEntry.replay?, outside]
  | spent spent => simp [LogEntry.replay?]

/-- An action is performed and leaves a record, or it halts the run and leaves the rocket
where it is. -/
theorem traceFrom_cons (world : World) (performed : Nat) (agent : Agent) (p : Primitive)
    (line : Nat) (rest : List (Primitive × Nat)) :
    (performed < world.maxSteps ∧ ∃ step, step.entry.isFailure = false ∧
        step.entry.replay? world agent = some step.agent ∧
        world.traceFrom performed agent ((p, line) :: rest) =
          step :: world.traceFrom (performed + 1) step.agent rest) ∨
      ∃ step, step.agent = agent ∧ world.Halts performed agent step.entry ∧
        world.traceFrom performed agent ((p, line) :: rest) = [step] := by
  have acts := world.acts_effect performed agent p
  rw [traceFrom_eq_effect]
  generalize world.effect performed agent p = effect at acts ⊢
  cases acts with
  | spent p spent => exact .inr ⟨_, rfl, .spent spent, rfl⟩
  | turned turn allowed =>
      refine .inl ⟨allowed, _, rfl, ?_, rfl⟩
      simp [LogEntry.replay?]
  | moved allowed free =>
      refine .inl ⟨allowed, _, rfl, ?_, rfl⟩
      simp [LogEntry.replay?, free]
  | blocked allowed outside => exact .inr ⟨_, rfl, .blocked outside, rfl⟩

/-- How the steps of some actions end that are due when others were performed: with the
last of the actions, or with a step that halts the run. The steps before are actions that
were performed within the budget. -/
inductive Ends (world : World) (performed : Nat) (agent : Agent) (due : Nat) :
    List Step → Prop
  | completed {steps : List Step} (goes : ∀ step ∈ steps, step.entry.isFailure = false)
      (all : steps.length = due) (allowed : performed + steps.length ≤ world.maxSteps) :
      Ends world performed agent due steps
  | halted {front : List Step} {last : Step}
      (goes : ∀ step ∈ front, step.entry.isFailure = false)
      (allowed : performed + front.length ≤ world.maxSteps)
      (still : last.agent = agentBehind agent front)
      (halts : world.Halts (performed + front.length) last.agent last.entry) :
      Ends world performed agent due (front ++ [last])

/-- An action that is performed is followed by the others. -/
theorem Ends.cons (goes : step.entry.isFailure = false)
    (h : world.Ends (performed + 1) step.agent due rest) :
    world.Ends performed agent (due + 1) (step :: rest) := by
  cases h with
  | completed goesOn all allowed =>
      refine .completed (List.forall_mem_cons.2 ⟨goes, goesOn⟩) ?_ ?_
      · rw [List.length_cons, all]
      · rw [List.length_cons]
        omega
  | @halted front last goesOn allowed still halts =>
      have count : performed + (step :: front).length = performed + 1 + front.length := by
        rw [List.length_cons]
        omega
      rw [← List.cons_append]
      refine .halted (List.forall_mem_cons.2 ⟨goes, goesOn⟩) ?_ ?_ ?_
      · rwa [count]
      · rw [still, agentBehind_cons]
      · rwa [count]

/-- The steps of some actions end in one of the ways there are. -/
theorem ends_traceFrom (within : performed ≤ world.maxSteps) (agent : Agent)
    (actions : List (Primitive × Nat)) :
    world.Ends performed agent actions.length (world.traceFrom performed agent actions) := by
  induction actions generalizing performed agent with
  | nil => exact .completed (by simp [traceFrom]) rfl within
  | cons action rest ih =>
      obtain ⟨p, line⟩ := action
      obtain ⟨allowed, step, goes, -, more⟩ | ⟨step, still, halts, single⟩ :=
        traceFrom_cons world performed agent p line rest
      · rw [more]
        exact (ih allowed step.agent).cons goes
      · rw [single, ← List.nil_append [step]]
        refine .halted (by simp) within still ?_
        rwa [still]

/-- The trace of a program ends in one of the ways there are. -/
theorem ends_trace (world : World) (program : Program) :
    world.Ends 0 world.start program.actionCount (world.trace program) := by
  rw [← Program.length_unrolled]
  exact ends_traceFrom (Nat.zero_le _) world.start program.unrolled

/-- Replaying the first entries of a trace leads to the rocket behind them. -/
theorem replay?_take_traceFrom (world : World) (performed : Nat) (agent : Agent)
    (actions : List (Primitive × Nat)) (k : Nat) :
    world.replay? agent (((world.traceFrom performed agent actions).take k).map (·.entry)) =
      some (agentBehind agent ((world.traceFrom performed agent actions).take k)) := by
  induction actions generalizing performed agent k with
  | nil => rw [traceFrom, List.take_nil]; rfl
  | cons action rest ih =>
      obtain ⟨p, line⟩ := action
      cases k with
      | zero => rfl
      | succ k =>
          obtain ⟨-, step, -, records, more⟩ | ⟨step, still, halts, single⟩ :=
            traceFrom_cons world performed agent p line rest
          · rw [more, List.take_succ_cons, List.map_cons, replay?, List.foldlM_cons, records,
              agentBehind_cons]
            exact ih (performed + 1) step.agent k
          · rw [single, List.take_succ_cons, List.take_nil, List.map_singleton, replay?,
              List.foldlM_cons, halts.replay?, agentBehind_cons, still]
            rfl

/-- Replaying what a run has recorded so far leads to its rocket. -/
theorem replay?_take_trace (world : World) (program : Program) (k : Nat) :
    world.replay? world.start (((world.trace program).take k).map (·.entry)) =
      some (world.viewAfter ((world.trace program).take k)).agent :=
  replay?_take_traceFrom world 0 world.start program.unrolled k

end World

end Rocket

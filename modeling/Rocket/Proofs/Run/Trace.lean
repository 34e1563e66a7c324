import Rocket.Proofs.Run.Cursor
import Rocket.Run.Basic

/-!
# Traces

The trace of a program is what performing its unrolled actions one after another
comes to. A run, however far it is driven, has made the first steps of the trace,
and the others are still to come.

## Implementation notes

A trace has a geometry of its own: which cell a move leads to, where a quarter turn
leads and which cells are on the board are written out here, and shown to be what a
run computes from displacements and places in clockwise order.

A trace knows one number only, that of the actions performed, which is the index of
the next step as well. A run keeps the two apart. They differ once the budget is
spent, but then there is no further step.
-/

namespace Rocket

/-- The cell that a move leads to. Rows are counted downwards. -/
def Position.neighbour (p : Position) : Heading → Position
  | .up => ⟨p.x, p.y - 1⟩
  | .right => ⟨p.x + 1, p.y⟩
  | .down => ⟨p.x, p.y + 1⟩
  | .left => ⟨p.x - 1, p.y⟩

/-- The heading that a quarter turn leads to. -/
def Heading.quarter : Heading → Turn → Heading
  | .up, .right => .right
  | .right, .right => .down
  | .down, .right => .left
  | .left, .right => .up
  | .up, .left => .left
  | .left, .left => .down
  | .down, .left => .right
  | .right, .left => .up

namespace World

/-- The steps that some actions make when others were performed before. A move that
would leave the grid is the last step, and so is the first action that the budget does
not allow. -/
def traceFrom (world : World) (performed : Nat) (agent : Agent) :
    List (Primitive × Nat) → List Step
  | [] => []
  | (p, line) :: rest =>
      if performed < world.maxSteps then
        match p with
        | .turn turn =>
            let heading := agent.heading.quarter turn
            ⟨performed, line, ⟨agent.position, heading⟩, .turned turn heading⟩
              :: world.traceFrom (performed + 1) ⟨agent.position, heading⟩ rest
        | .move =>
            let cell := agent.position.neighbour agent.heading
            if (0 ≤ cell.x.toInt ∧ cell.x.toInt < world.grid.size) ∧
                0 ≤ cell.y.toInt ∧ cell.y.toInt < world.grid.size then
              ⟨performed, line, ⟨cell, agent.heading⟩, .moved cell⟩
                :: world.traceFrom (performed + 1) ⟨cell, agent.heading⟩ rest
            else [⟨performed, line, agent, .blocked agent.position cell⟩]
      else [⟨performed, line, agent, .stepLimitExceeded world.maxSteps⟩]

/-- The steps of a program in a world. -/
def trace (world : World) (program : Program) : List Step :=
  world.traceFrom 0 world.start program.unrolled

end World

/-! ## What an action does -/

/-- A displacement leads to the neighbour. -/
theorem Position.neighbour_eq_step (p : Position) (h : Heading) : p.neighbour h = p.step h := by
  cases h <;> simp [neighbour, step, Heading.delta, Int32.sub_eq_add_neg]

theorem Heading.quarter_eq_turned (h : Heading) (turn : Turn) : h.quarter turn = h.turned turn := by
  cases h <;> cases turn <;> rfl

namespace World

/-- What an action comes to when `taken` others were performed: the budget does not allow it,
or it is performed as a turn, as a move to a cell of the grid or as a move that is blocked. -/
inductive Acts (world : World) (taken : Nat) (agent : Agent) : Primitive → Effect → Prop
  | spent (p : Primitive) (spent : world.maxSteps ≤ taken) :
      Acts world taken agent p (world.overspend agent)
  | turned (turn : Turn) (allowed : taken < world.maxSteps) :
      Acts world taken agent (.turn turn)
        ⟨.turned turn (agent.heading.turned turn),
          ⟨agent.position, agent.heading.turned turn⟩, none⟩
  | moved (allowed : taken < world.maxSteps)
      (free : world.grid.contains (agent.position.step agent.heading) = true) :
      Acts world taken agent .move
        ⟨.moved (agent.position.step agent.heading),
          ⟨agent.position.step agent.heading, agent.heading⟩, none⟩
  | blocked (allowed : taken < world.maxSteps)
      (outside : world.grid.contains (agent.position.step agent.heading) = false) :
      Acts world taken agent .move
        ⟨.blocked agent.position (agent.position.step agent.heading), agent,
          some (.outOfBounds agent.position (agent.position.step agent.heading))⟩

variable (world : World) (taken : Nat) (agent : Agent) (p : Primitive)

theorem acts_effect : world.Acts taken agent p (world.effect taken agent p) := by
  unfold effect
  split
  next spent => exact .spent p spent
  next allowed =>
    rw [Nat.not_le] at allowed
    cases p with
    | turn turn => exact .turned turn allowed
    | move =>
        dsimp only [perform]
        split
        next free => exact .moved allowed free
        next outside => exact .blocked allowed (Bool.eq_false_iff.2 outside)

/-- An action makes the step that its effect says, and the last one if its effect halts. -/
theorem traceFrom_eq_effect (line : Nat) (rest : List (Primitive × Nat)) :
    let effect := world.effect taken agent p
    world.traceFrom taken agent ((p, line) :: rest) =
      ⟨taken, line, effect.agent, effect.entry⟩ ::
        if effect.halt?.isSome then [] else world.traceFrom (taken + 1) effect.agent rest := by
  intro effect
  have acts : world.Acts taken agent p effect := world.acts_effect taken agent p
  generalize effect = effect at acts
  cases acts with
  | spent p spent =>
      cases p <;> rw [traceFrom, if_neg (Nat.not_lt.2 spent)] <;> rfl
  | turned turn allowed =>
      rw [traceFrom, if_pos allowed, Heading.quarter_eq_turned]
      rfl
  | moved allowed free =>
      rw [traceFrom, if_pos allowed, Position.neighbour_eq_step]
      exact if_pos (Grid.contains_iff.1 free)
  | blocked allowed outside =>
      rw [traceFrom, if_pos allowed, Position.neighbour_eq_step]
      exact if_neg (mt Grid.contains_iff.2 (Bool.eq_false_iff.1 outside))

end World

/-- Why the run ends with an entry, if it does. -/
def LogEntry.halt? : LogEntry → Option Halt
  | .blocked origin attempted => some (.outOfBounds origin attempted)
  | .stepLimitExceeded limit => some (.stepLimit limit)
  | _ => none

/-- Whether an entry stands for an action that was performed, if only to be blocked. -/
def LogEntry.isPerformed : LogEntry → Bool
  | .stepLimitExceeded _ => false
  | _ => true

namespace World

variable (world : World) (taken : Nat) (agent : Agent) (p : Primitive)

/-- The entry of an action says why the run ends with it. -/
theorem halt?_entry_effect :
    (world.effect taken agent p).entry.halt? = (world.effect taken agent p).halt? := by
  have acts := world.acts_effect taken agent p
  generalize world.effect taken agent p = effect at acts ⊢
  cases acts <;> rfl

/-- The entry of an action says whether the budget allowed it. -/
theorem isPerformed_entry_effect :
    (world.effect taken agent p).entry.isPerformed = decide (taken < world.maxSteps) := by
  have acts := world.acts_effect taken agent p
  generalize world.effect taken agent p = effect at acts ⊢
  cases acts with
  | spent p spent => exact (decide_eq_false (Nat.not_lt.2 spent)).symm
  | turned turn allowed => exact (decide_eq_true allowed).symm
  | moved allowed free => exact (decide_eq_true allowed).symm
  | blocked allowed outside => exact (decide_eq_true allowed).symm

end World

/-- What can be seen of a run from outside. -/
structure View where
  agent : Agent
  taken : Nat
  halt? : Option Halt
  deriving DecidableEq

/-- What is to be seen after some steps: the rocket as the last one left it, the number
of actions performed and why the last one ended the run. -/
def World.viewAfter (world : World) (made : List Step) : View where
  agent := (made.getLast?.map (·.agent)).getD world.start
  taken := made.countP (·.entry.isPerformed)
  halt? := made.getLast?.bind (·.entry.halt?)

namespace Run

def view (run : Run) : View :=
  ⟨run.agent, run.taken, run.halt?⟩

/-- The steps that a run has still to make. -/
def toCome (run : Run) : List Step :=
  if run.halt?.isSome then []
  else run.world.traceFrom run.taken run.agent run.cursor.remaining

/-- What every run of a program keeps to. -/
structure IsReady (run : Run) : Prop where
  inside : run.cursor.IsInside
  counted : run.halt? = none → run.index = run.taken

variable {run : Run} {p : Primitive} {line : Nat} {behind : Cursor}

/-- The step that an action makes is the first one to come. -/
theorem toCome_eq_advance (running : run.halt? = none) (counted : run.index = run.taken)
    (due : run.cursor.remaining = (p, line) :: behind.remaining) :
    run.toCome = (run.advance p line behind).1 :: (run.advance p line behind).2.toCome := by
  rw [toCome, running, due, if_neg (by simp), World.traceFrom_eq_effect]
  by_cases spent : run.world.maxSteps ≤ run.taken
  · simp [advance, World.effect, World.overspend, toCome, spent, counted]
  · simp [advance, toCome, spent, counted]

/-- After a step a run shows what the step says. -/
theorem view_advance (run : Run) (p : Primitive) (line : Nat) (behind : Cursor) :
    let (step, after) := run.advance p line behind
    after.view =
      ⟨step.agent, run.taken + (if step.entry.isPerformed then 1 else 0), step.entry.halt?⟩ := by
  have performed := run.world.isPerformed_entry_effect run.taken run.agent p
  have halts := run.world.halt?_entry_effect run.taken run.agent p
  by_cases spent : run.world.maxSteps ≤ run.taken
  · simp [advance, view, performed, halts, spent, Nat.not_lt.2 spent]
  · simp [advance, view, performed, halts, spent, Nat.not_le.1 spent]

/-- As long as a run goes on, every step it has made is an action performed. -/
theorem counted_advance (counted : run.index = run.taken) (p : Primitive) (line : Nat)
    (behind : Cursor) (running : (run.advance p line behind).2.halt? = none) :
    (run.advance p line behind).2.index = (run.advance p line behind).2.taken := by
  by_cases spent : run.world.maxSteps ≤ run.taken
  · simp [advance, World.effect, World.overspend, spent] at running
  · simp [advance, spent, counted]

theorem isReady_start (program : Program) (world : World) : (start program world).IsReady :=
  ⟨Cursor.isInside_start program, fun _ => rfl⟩

/-- A run for which no step is to come makes none. -/
theorem next_of_toCome_nil (ready : run.IsReady) (ended : run.toCome = []) :
    run.next = .ok none := by
  by_cases halted : run.halt?.isSome = true
  · exact next_of_halted halted
  · have running : run.halt? = none := by simpa using halted
    have next := Cursor.isNextOf_next run.cursor ready.inside
    rw [Cursor.IsNextOf] at next
    split at next
    · simp [Run.next, running, next]
    next p line tail due =>
      obtain ⟨behind, -, -, rfl⟩ := next
      rw [toCome_eq_advance running (ready.counted running) due] at ended
      exact absurd ended (List.cons_ne_nil _ _)

/-- A run makes the first step to come and is then before the others. -/
theorem next_of_toCome_cons {step : Step} {tail : List Step} (ready : run.IsReady)
    (more : run.toCome = step :: tail) :
    ∃ after, run.next = .ok (some (step, after)) ∧ after.IsReady ∧ after.toCome = tail ∧
      after.view =
        ⟨step.agent, run.taken + (if step.entry.isPerformed then 1 else 0), step.entry.halt?⟩ := by
  have running : run.halt? = none := by
    rw [toCome] at more
    split at more
    · cases more
    next running => simpa using running
  have next := Cursor.isNextOf_next run.cursor ready.inside
  rw [Cursor.IsNextOf] at next
  split at next
  next done =>
    rw [toCome, running, done] at more
    cases more
  next p line tail' due =>
    obtain ⟨behind, found, inside, rfl⟩ := next
    have first := toCome_eq_advance running (ready.counted running) due
    rw [more] at first
    obtain ⟨rfl, rfl⟩ := List.cons.inj first
    refine ⟨_, next_of_cursor running found, ⟨inside, ?_⟩, rfl, view_advance run p line behind⟩
    exact counted_advance (ready.counted running) p line behind

end Run

/-- The view after one more step. -/
theorem World.viewAfter_concat (world : World) (made : List Step) (step : Step) :
    world.viewAfter (made ++ [step]) =
      ⟨step.agent, (world.viewAfter made).taken + (if step.entry.isPerformed then 1 else 0),
        step.entry.halt?⟩ := by
  simp [World.viewAfter, List.countP_append, List.countP_singleton]

namespace Run

variable {program : Program} {world : World} {run : Run} {k : Nat}

/-- Whether a run has made the first `k` steps of a program, or all if there are fewer. -/
structure HasMade (program : Program) (world : World) (k : Nat) (run : Run) : Prop where
  ready : run.IsReady
  toCome : run.toCome = (world.trace program).drop k
  view : run.view = world.viewAfter ((world.trace program).take k)

theorem hasMade_start (program : Program) (world : World) :
    (start program world).HasMade program world 0 where
  ready := isReady_start program world
  toCome := by
    rw [toCome, World.trace, ← Cursor.remaining_start]
    rfl
  view := rfl

/-- A run that has made all steps makes none, and has made all of any greater number. -/
theorem HasMade.next_of_le (h : run.HasMade program world k)
    (ended : (world.trace program).length ≤ k) :
    run.next = .ok none ∧ run.HasMade program world (k + 1) := by
  obtain ⟨ready, toCome, view⟩ := h
  have empty := List.drop_eq_nil_of_le ended
  refine ⟨next_of_toCome_nil ready (toCome.trans empty), ready, ?_, ?_⟩
  · rw [toCome, empty, List.drop_eq_nil_of_le (Nat.le_succ_of_le ended)]
  · rw [view, List.take_of_length_le ended, List.take_of_length_le (Nat.le_succ_of_le ended)]

/-- A run that has made some steps, but not all, makes the one after them. -/
theorem HasMade.next_of_lt (h : run.HasMade program world k)
    (inside : k < (world.trace program).length) :
    ∃ after, run.next = .ok (some ((world.trace program)[k], after)) ∧
      after.HasMade program world (k + 1) := by
  obtain ⟨ready, toCome, view⟩ := h
  rw [List.drop_eq_getElem_cons inside] at toCome
  obtain ⟨after, next, ready', toCome', view'⟩ := next_of_toCome_cons ready toCome
  have taken : run.taken = (world.viewAfter ((world.trace program).take k)).taken :=
    congrArg View.taken view
  refine ⟨after, next, ready', toCome', ?_⟩
  rw [view', taken, List.take_succ_eq_append_getElem inside, World.viewAfter_concat]

/-- Ask for the next step: the answer, and the run it leaves behind. -/
def pull (run : Run) : Except BadIndex (Option Step × Run) :=
  match run.next with
  | .error bad => .error bad
  | .ok none => .ok (none, run)
  | .ok (some (step, after)) => .ok (some step, after)

/-- The answer is the next step of the trace, and nothing once the trace is over. -/
theorem HasMade.pull (h : run.HasMade program world k) :
    ∃ after, run.pull = .ok ((world.trace program)[k]?, after) ∧
      after.HasMade program world (k + 1) := by
  by_cases ended : (world.trace program).length ≤ k
  · obtain ⟨next, made⟩ := h.next_of_le ended
    refine ⟨run, ?_, made⟩
    rw [Run.pull, next, List.getElem?_eq_none ended]
  · have inside : k < (world.trace program).length := Nat.not_le.1 ended
    obtain ⟨after, next, made⟩ := h.next_of_lt inside
    refine ⟨after, ?_, made⟩
    rw [Run.pull, next, List.getElem?_eq_getElem inside]

/-- Ask for the next step a number of times. -/
def pulls : Nat → Run → Except BadIndex (List (Option Step) × Run)
  | 0, run => .ok ([], run)
  | n + 1, run => do
      let (step?, after) ← run.pull
      let (others, last) ← pulls n after
      return (step? :: others, last)

/-- The answers are the steps of the trace that follow, and then nothing. -/
theorem HasMade.pulls (h : run.HasMade program world k) (n : Nat) :
    ∃ after, run.pulls n = .ok ((List.range' k n).map ((world.trace program)[·]?), after) ∧
      after.HasMade program world (k + n) := by
  induction n generalizing run k with
  | zero => exact ⟨run, rfl, h⟩
  | succ n ih =>
      obtain ⟨middle, first, made⟩ := h.pull
      obtain ⟨after, others, madeAll⟩ := ih made
      refine ⟨after, ?_, ?_⟩
      · rw [Run.pulls, first]
        simp only [bind, Except.bind, others]
        rfl
      · rwa [Nat.add_assoc, Nat.add_comm 1 n] at madeAll

/-- Draining a run makes all steps that follow. -/
theorem HasMade.drain (h : run.HasMade program world k) (made : Array Step) :
    ∃ after, run.drain made = (made ++ ((world.trace program).drop k).toArray, after) ∧
      after.HasMade program world (max k (world.trace program).length) := by
  generalize size : (world.trace program).length - k = n
  induction n generalizing run k made with
  | zero =>
      have ended : (world.trace program).length ≤ k := Nat.le_of_sub_eq_zero size
      obtain ⟨next, -⟩ := h.next_of_le ended
      refine ⟨run, ?_, ?_⟩
      · rw [Run.drain]
        split
        next step after found => simp [next] at found
        next =>
          rw [List.drop_eq_nil_of_le ended]
          simp
        next bad found => simp [next] at found
      · rwa [Nat.max_eq_left ended]
  | succ n ih =>
      have inside : k < (world.trace program).length := by omega
      obtain ⟨after, next, madeNext⟩ := h.next_of_lt inside
      obtain ⟨last, drained, madeAll⟩ := ih madeNext (made.push (world.trace program)[k]) (by omega)
      refine ⟨last, ?_, ?_⟩
      · rw [Run.drain]
        split
        next step after' found =>
          rw [next] at found
          obtain ⟨rfl, rfl⟩ := Prod.mk.inj (Option.some.inj (Except.ok.inj found))
          rw [drained, List.drop_eq_getElem_cons inside]
          simp
        next found => simp [next] at found
        next bad found => simp [next] at found
      · have bound : max (k + 1) (world.trace program).length =
            max k (world.trace program).length := by omega
        rwa [bound] at madeAll

/-- A finished run has made all steps of the trace. -/
theorem drain_start (program : Program) (world : World) :
    ∃ after, (start program world).drain #[] = ((world.trace program).toArray, after) ∧
      after.view = world.viewAfter (world.trace program) := by
  obtain ⟨after, drained, made⟩ := (hasMade_start program world).drain #[]
  refine ⟨after, ?_, ?_⟩
  · rw [drained]
    simp
  · have view := made.view
    rwa [Nat.zero_max, List.take_length] at view

end Run

/-- The report on a run says what the trace does. -/
theorem RunReport.ofProgram_eq (program : Program) (world : World) :
    let view := world.viewAfter (world.trace program)
    ofProgram program world = ⟨view.agent, view.halt?, (world.trace program).toArray⟩ := by
  obtain ⟨after, drained, view⟩ := Run.drain_start program world
  rw [ofProgram, drained, ← view]
  rfl

end Rocket

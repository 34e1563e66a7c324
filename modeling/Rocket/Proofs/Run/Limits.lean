import Rocket.Level.Basic
import Rocket.Proofs.Run.Ending

/-!
# Limits of a world

A world limits its runs by the size of its grid and by its budget. Of two worlds with the
same start, one with wider limits than the other, both make the same steps of a program, up
to the first one that the narrower limits forbid. The target limits nothing.
-/

namespace Rocket

/-- Some steps without a last one that halts the run. -/
def Step.withoutHalt (steps : List Step) : List Step :=
  if steps.getLast?.any (·.entry.halt?.isSome) then steps.dropLast else steps

namespace Step

variable {step : Step} {steps : List Step}

/-- A step that halts the run is left out. -/
theorem withoutHalt_singleton (halts : step.entry.halt?.isSome = true) :
    withoutHalt [step] = [] := by
  simp [withoutHalt, halts]

/-- A step that does not halt the run stays, whatever follows it. -/
theorem withoutHalt_cons (goes : step.entry.halt? = none) :
    withoutHalt (step :: steps) = step :: withoutHalt steps := by
  cases steps with
  | nil => simp [withoutHalt, goes]
  | cons next rest =>
      simp only [withoutHalt, List.getLast?_cons_cons, List.dropLast_cons_cons]
      split <;> rfl

end Step

namespace World

/-- Whether a world has the same start as another one, and no wider limits. -/
structure IsNarrower (narrow wide : World) : Prop where
  start : narrow.start = wide.start
  size : narrow.grid.size ≤ wide.grid.size
  budget : narrow.maxSteps ≤ wide.maxSteps

variable {narrow wide : World}

/-- An action is performed alike in both worlds, unless the narrower limits forbid it. -/
theorem IsNarrower.traceFrom_cons (h : narrow.IsNarrower wide) (performed : Nat) (agent : Agent)
    (p : Primitive) (line : Nat) (rest : List (Primitive × Nat)) :
    (∃ step, step.entry.halt? = none ∧
        narrow.traceFrom performed agent ((p, line) :: rest) =
          step :: narrow.traceFrom (performed + 1) step.agent rest ∧
        wide.traceFrom performed agent ((p, line) :: rest) =
          step :: wide.traceFrom (performed + 1) step.agent rest) ∨
      ∃ step, step.entry.halt?.isSome = true ∧
        narrow.traceFrom performed agent ((p, line) :: rest) = [step] := by
  by_cases allowed : performed < narrow.maxSteps
  · have allowed' : performed < wide.maxSteps := Nat.lt_of_lt_of_le allowed h.budget
    simp only [traceFrom_eq_effect, effect, if_neg (Nat.not_le.2 allowed),
      if_neg (Nat.not_le.2 allowed')]
    cases p with
    | turn turn => exact .inl ⟨_, rfl, rfl, rfl⟩
    | move =>
        dsimp only [perform]
        by_cases free : narrow.grid.contains (agent.position.step agent.heading) = true
        · have free' := Grid.contains_mono h.size free
          simp only [if_pos free, if_pos free']
          exact .inl ⟨_, rfl, rfl, rfl⟩
        · simp only [if_neg free]
          exact .inr ⟨_, rfl, rfl⟩
  · simp only [traceFrom_eq_effect, effect, if_pos (Nat.not_lt.1 allowed)]
    exact .inr ⟨_, rfl, rfl⟩

/-- Steps that the narrower limits allow are made in both worlds. -/
theorem IsNarrower.withoutHalt_prefix (h : narrow.IsNarrower wide) (performed : Nat)
    (agent : Agent) (actions : List (Primitive × Nat)) :
    Step.withoutHalt (narrow.traceFrom performed agent actions) <+:
      wide.traceFrom performed agent actions := by
  induction actions generalizing performed agent with
  | nil => exact List.nil_prefix
  | cons action rest ih =>
      obtain ⟨p, line⟩ := action
      obtain ⟨step, goes, inNarrow, inWide⟩ | ⟨step, halts, last⟩ :=
        h.traceFrom_cons performed agent p line rest
      · rw [inNarrow, inWide, Step.withoutHalt_cons goes, List.cons_prefix_cons]
        exact ⟨rfl, ih (performed + 1) step.agent⟩
      · rw [last, Step.withoutHalt_singleton halts]
        exact List.nil_prefix

/-- Steps none of which the narrower limits forbid are all steps in both worlds. -/
theorem IsNarrower.traceFrom_eq (h : narrow.IsNarrower wide) {performed : Nat} {agent : Agent}
    {actions : List (Primitive × Nat)}
    (goes : ∀ step ∈ narrow.traceFrom performed agent actions, step.entry.halt? = none) :
    narrow.traceFrom performed agent actions = wide.traceFrom performed agent actions := by
  induction actions generalizing performed agent with
  | nil => rfl
  | cons action rest ih =>
      obtain ⟨p, line⟩ := action
      obtain ⟨step, -, inNarrow, inWide⟩ | ⟨step, halts, last⟩ :=
        h.traceFrom_cons performed agent p line rest
      · rw [inNarrow, List.forall_mem_cons] at goes
        rw [inNarrow, inWide, ih goes.2]
      · rw [last, List.forall_mem_singleton] at goes
        rw [goes] at halts
        cases halts

/-- A trace takes no notice of the target. -/
theorem traceFrom_target (world : World) (target : Position) (performed : Nat) (agent : Agent)
    (actions : List (Primitive × Nat)) :
    { world with target }.traceFrom performed agent actions =
      world.traceFrom performed agent actions := by
  induction actions generalizing performed agent with
  | nil => rfl
  | cons action rest ih =>
      obtain ⟨p, line⟩ := action
      cases p <;> simp only [traceFrom, ih]

/-- A run that does not halt has made no step that halts it. -/
theorem halt?_of_mem_trace {world : World} {program : Program}
    (going : (world.viewAfter (world.trace program)).halt? = none) :
    ∀ step ∈ world.trace program, step.entry.halt? = none := by
  intro step member
  obtain ⟨i, inside, rfl⟩ := List.getElem_of_mem member
  cases entry : (world.trace program)[i].entry.halt? with
  | none => rfl
  | some halt =>
      have size : (world.trace program).length = i + 1 :=
        length_traceFrom_of_halt (List.getElem?_eq_getElem inside) (by rw [entry]; rfl)
      have last : (world.trace program).getLast? = some (world.trace program)[i] := by
        rw [List.getLast?_eq_getElem?, size, Nat.add_sub_cancel]
        exact List.getElem?_eq_getElem inside
      rw [viewAfter, last] at going
      exact entry.symm.trans going

end World

namespace RunReport

/-- Wider limits only extend a run. What it does under the narrower ones, but for a step
that they forbid, comes first under the wider ones; if they forbid none, nothing changes.
Another target changes nothing in any case. -/
theorem ofProgram_of_isNarrower (program : Program) (narrow wide : World)
    (h : narrow.IsNarrower wide) :
    Step.withoutHalt (ofProgram program narrow).steps.toList <+:
        (ofProgram program wide).steps.toList ∧
      ((ofProgram program narrow).halt? = none →
        ofProgram program narrow = ofProgram program wide) ∧
      ∀ target, ofProgram program { narrow with target } = ofProgram program narrow := by
  have start := h.start
  refine ⟨?_, ?_, ?_⟩
  · rw [ofProgram_eq, ofProgram_eq, List.toList_toArray, List.toList_toArray, World.trace,
      World.trace, start]
    exact h.withoutHalt_prefix 0 wide.start program.unrolled
  · intro going
    rw [ofProgram_eq] at going
    have same : narrow.trace program = wide.trace program := by
      have goes := World.halt?_of_mem_trace going
      unfold World.trace at goes ⊢
      rw [h.traceFrom_eq goes, start]
    rw [ofProgram_eq, ofProgram_eq, same]
    simp only [World.viewAfter, start]
  · intro target
    have same : { narrow with target }.trace program = narrow.trace program :=
      World.traceFrom_target narrow target 0 narrow.start program.unrolled
    rw [ofProgram_eq, ofProgram_eq, same]
    rfl

/-- Two levels with the same start. A program that runs into the wall of the small one goes
on in the large one until its budget is spent; a shorter one does the same in both. -/
theorem ofProgram_of_isNarrower_reference :
    let small : Level := ⟨2, ⟨0, 1⟩, .up, ⟨1, 0⟩, 800, 4, .permissive⟩
    let large : Level := ⟨6, ⟨0, 1⟩, .up, ⟨5, 5⟩, 0, 5, .strict⟩
    let short : Program :=
      ⟨[⟨.primitive .move, ⟨1, 1, 7⟩⟩, ⟨.primitive (.turn .right), ⟨2, 1, 12⟩⟩]⟩
    let long : Program := ⟨short.statements ++ [⟨.loop 9 [.move], ⟨3, 1, 19⟩⟩]⟩
    ∃ narrow wide, small.world = .ok narrow ∧ large.world = .ok wide ∧ narrow.IsNarrower wide ∧
      (ofProgram long narrow).halt? = some (.outOfBounds ⟨1, 0⟩ ⟨2, 0⟩) ∧
      (ofProgram long wide).halt? = some (.stepLimit 5) ∧
      (Step.withoutHalt (ofProgram long narrow).steps.toList).length = 3 ∧
      Step.withoutHalt (ofProgram long narrow).steps.toList <+:
        (ofProgram long wide).steps.toList ∧
      ofProgram short narrow = ofProgram short wide := by
  intro small large short long
  let narrow : World := ⟨⟨2⟩, ⟨⟨0, 1⟩, .up⟩, ⟨1, 0⟩, 4⟩
  let wide : World := ⟨⟨6⟩, ⟨⟨0, 1⟩, .up⟩, ⟨5, 5⟩, 5⟩
  have narrower : narrow.IsNarrower wide := ⟨rfl, by decide, by decide⟩
  refine ⟨narrow, wide, rfl, rfl, narrower, ?_, ?_, ?_, ?_, ?_⟩
  · decide +kernel
  · decide +kernel
  · decide +kernel
  · exact (ofProgram_of_isNarrower long narrow wide narrower).1
  · exact (ofProgram_of_isNarrower short narrow wide narrower).2.1 (by decide +kernel)

end RunReport

end Rocket

import Rocket.Proofs.Run.Trace

/-!
# Copies of a run

A run under way can be copied and started anew as often as one likes. Each copy goes
on from where it was taken, whatever becomes of the others: all that can be seen of
it follows from the trace and the number of steps it has made.

## Implementation notes

Copies live in numbered slots. A second machine with the same operations keeps only a
number in each slot, and answers from the trace.
-/

namespace Rocket

/-- What can be done with the copies of a run. -/
inductive Handling where
  /-- Ask slot `i` for its next step. -/
  | next (i : Nat)
  /-- Ask slot `i` for all of its steps. -/
  | drain (i : Nat)
  /-- Put a copy of slot `i` into slot `j`. -/
  | fork (i j : Nat)
  /-- Exchange two slots. -/
  | swap (i j : Nat)
  /-- Start slot `i` anew. -/
  | restart (i : Nat)

namespace Handling

/-- What is answered to a handling. -/
inductive Answer where
  | step (step? : Option Step)
  | steps (made : List Step)
  | done

/-- The slots with a new content for one of them. -/
def put {α : Type} (slots : Nat → α) (i : Nat) (content : α) : Nat → α :=
  fun j => if j = i then content else slots j

/-- A handling of slots that hold runs. -/
def act (program : Program) (world : World) (slots : Nat → Run) :
    Handling → Except BadIndex (Answer × (Nat → Run))
  | .next i => do
      let (step?, after) ← (slots i).pull
      return (.step step?, put slots i after)
  | .drain i =>
      let (made, after) := (slots i).drain #[]
      .ok (.steps made.toList, put slots i after)
  | .fork i j => .ok (.done, put slots j (slots i))
  | .swap i j => .ok (.done, put (put slots i (slots j)) j (slots i))
  | .restart i => .ok (.done, put slots i (.start program world))

/-- A handling of slots that hold numbers of steps of the trace. -/
def count (all : List Step) (slots : Nat → Nat) : Handling → Answer × (Nat → Nat)
  | .next i => (.step all[slots i]?, put slots i (slots i + 1))
  | .drain i => (.steps (all.drop (slots i)), put slots i (max (slots i) all.length))
  | .fork i j => (.done, put slots j (slots i))
  | .swap i j => (.done, put (put slots i (slots j)) j (slots i))
  | .restart i => (.done, put slots i 0)

/-- The answers to some handlings, each with what can then be seen of every slot. -/
def actAll (program : Program) (world : World) (slots : Nat → Run) :
    List Handling → Except BadIndex (List (Answer × (Nat → View)))
  | [] => .ok []
  | handling :: rest => do
      let (answer, after) ← handling.act program world slots
      let others ← actAll program world after rest
      return ((answer, fun i => (after i).view) :: others)

/-- The same, answered from the trace. -/
def countAll (program : Program) (world : World) (slots : Nat → Nat) :
    List Handling → List (Answer × (Nat → View))
  | [] => []
  | handling :: rest =>
      let (answer, after) := handling.count (world.trace program) slots
      (answer, fun i => world.viewAfter ((world.trace program).take (after i)))
        :: countAll program world after rest

variable {program : Program} {world : World} {runs : Nat → Run} {counts : Nat → Nat}

/-- Each slot holds a run that has made the number of steps counted for it. -/
def IsCounted (program : Program) (world : World) (runs : Nat → Run) (counts : Nat → Nat) : Prop :=
  ∀ i, (runs i).HasMade program world (counts i)

theorem isCounted_put (h : IsCounted program world runs counts) {run : Run} {k : Nat}
    (made : run.HasMade program world k) (i : Nat) :
    IsCounted program world (put runs i run) (put counts i k) := by
  intro j
  unfold put
  split
  · exact made
  · exact h j

/-- A handling is answered from the trace, and the counts stay right. -/
theorem act_of_isCounted (h : IsCounted program world runs counts) (handling : Handling) :
    ∃ after, handling.act program world runs =
        .ok ((handling.count (world.trace program) counts).1, after) ∧
      IsCounted program world after (handling.count (world.trace program) counts).2 := by
  cases handling with
  | next i =>
      obtain ⟨run, answer, made⟩ := (h i).pull
      refine ⟨put runs i run, ?_, isCounted_put h made i⟩
      rw [act, answer]
      rfl
  | drain i =>
      obtain ⟨run, answer, made⟩ := (h i).drain #[]
      refine ⟨put runs i run, ?_, isCounted_put h made i⟩
      rw [act, answer]
      simp [count]
  | fork i j => exact ⟨_, rfl, isCounted_put h (h i) j⟩
  | swap i j => exact ⟨_, rfl, isCounted_put (isCounted_put h (h j) i) (h i) j⟩
  | restart i => exact ⟨_, rfl, isCounted_put h (Run.hasMade_start program world) i⟩

/-- Any sequence of handlings is answered from the trace. -/
theorem actAll_of_isCounted (h : IsCounted program world runs counts)
    (handlings : List Handling) :
    actAll program world runs handlings = .ok (countAll program world counts handlings) := by
  induction handlings generalizing runs counts with
  | nil => rfl
  | cons handling rest ih =>
      obtain ⟨after, answer, counted⟩ := act_of_isCounted h handling
      have views : (fun i => (after i).view) = fun i =>
          world.viewAfter ((world.trace program).take
            ((handling.count (world.trace program) counts).2 i)) := by
        funext i
        exact (counted i).view
      rw [actAll, answer]
      simp only [bind, Except.bind, ih counted, views]
      rfl

end Handling

/-- A run follows the trace of its program. Asked for steps one by one it answers with
those of the trace in order and then with nothing, and shows at any time what the steps
made so far say; so does every copy of it, in whatever order the copies are driven. The
report on the whole run says what the whole trace does. -/
theorem run_follows_trace (program : Program) (world : World) :
    (∀ k, ∃ after,
        (Run.start program world).pulls k =
            .ok ((List.range k).map ((world.trace program)[·]?), after) ∧
          after.view = world.viewAfter ((world.trace program).take k)) ∧
      (∀ handlings,
        Handling.actAll program world (fun _ => .start program world) handlings =
          .ok (Handling.countAll program world (fun _ => 0) handlings)) ∧
      RunReport.ofProgram program world =
        { finalAgent := (world.viewAfter (world.trace program)).agent
          halt? := (world.viewAfter (world.trace program)).halt?
          steps := (world.trace program).toArray } := by
  refine ⟨?_, ?_, RunReport.ofProgram_eq program world⟩
  · intro k
    obtain ⟨after, answers, made⟩ := (Run.hasMade_start program world).pulls k
    refine ⟨after, ?_, ?_⟩
    · rw [answers, List.range_eq_range']
    · rw [made.view, Nat.zero_add]
  · intro handlings
    have start : Handling.IsCounted program world (fun _ => .start program world) fun _ => 0 :=
      fun _ => Run.hasMade_start program world
    exact Handling.actAll_of_isCounted start handlings

/-- On a board of nine cells the rocket goes up, to the right and down, turns both ways and
is blocked at the right border. A copy that was left behind goes on from its own place; with
a budget of three, the fourth action is refused. -/
theorem run_follows_trace_reference :
    let program : Program :=
      ⟨[⟨.primitive .move, ⟨1, 1, 7⟩⟩, ⟨.loop 2 [.turn .right, .move], ⟨2, 1, 33⟩⟩,
        ⟨.loop 0 [.move], ⟨3, 1, 20⟩⟩, ⟨.primitive (.turn .left), ⟨4, 1, 11⟩⟩,
        ⟨.loop 2 [.move], ⟨5, 1, 20⟩⟩]⟩
    let world : World := ⟨⟨3⟩, ⟨⟨0, 2⟩, .up⟩, ⟨2, 0⟩, 10000⟩
    let early : List Step :=
      [⟨0, 1, ⟨⟨0, 1⟩, .up⟩, .moved ⟨0, 1⟩⟩,
        ⟨1, 2, ⟨⟨0, 1⟩, .right⟩, .turned .right .right⟩,
        ⟨2, 2, ⟨⟨1, 1⟩, .right⟩, .moved ⟨1, 1⟩⟩]
    let late : List Step :=
      [⟨3, 2, ⟨⟨1, 1⟩, .down⟩, .turned .right .down⟩,
        ⟨4, 2, ⟨⟨1, 2⟩, .down⟩, .moved ⟨1, 2⟩⟩,
        ⟨5, 4, ⟨⟨1, 2⟩, .right⟩, .turned .left .right⟩,
        ⟨6, 5, ⟨⟨2, 2⟩, .right⟩, .moved ⟨2, 2⟩⟩,
        ⟨7, 5, ⟨⟨2, 2⟩, .right⟩, .blocked ⟨2, 2⟩ ⟨3, 2⟩⟩]
    let refused : Step := ⟨3, 2, ⟨⟨1, 1⟩, .right⟩, .stepLimitExceeded 3⟩
    (∃ after, (Run.start program world).pulls 9 =
          .ok ((early ++ late).map some ++ [none], after) ∧
        after.view = ⟨⟨⟨2, 2⟩, .right⟩, 8, some (.outOfBounds ⟨2, 2⟩ ⟨3, 2⟩)⟩) ∧
      (∃ seen, Handling.actAll program world (fun _ => .start program world)
            [.next 0, .next 0, .next 0, .fork 0 1, .drain 0, .next 1] = .ok seen ∧
          seen.map (·.1) =
            early.map (.step ∘ some) ++ [.done, .steps late, .step late.head?]) ∧
      RunReport.ofProgram program { world with maxSteps := 3 } =
        { finalAgent := ⟨⟨1, 1⟩, .right⟩
          halt? := some (.stepLimit 3)
          steps := (early ++ [refused]).toArray } := by
  intro program world early late refused
  obtain ⟨pulls, handlings, -⟩ := run_follows_trace program world
  obtain ⟨-, -, report⟩ := run_follows_trace program { world with maxSteps := 3 }
  have whole : world.trace program = early ++ late := by decide +kernel
  have short : { world with maxSteps := 3 }.trace program = early ++ [refused] := by
    decide +kernel
  refine ⟨?_, ⟨_, handlings _, ?_⟩, ?_⟩
  · obtain ⟨after, answers, view⟩ := pulls 9
    rw [whole] at answers view
    exact ⟨after, answers, view⟩
  · simp only [Handling.countAll, whole]
    rfl
  · rw [report, short]
    rfl

end Rocket

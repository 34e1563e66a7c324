import Rocket.Proofs.Run.Safety
import Rocket.Proofs.Session.Invariant

/-!
# Sessions without breakdowns

In a level that can be played nothing goes wrong by itself: everything about a run stays
in range, and as long as no observer traps a run, no outcome tells of a breakdown. This
is so whatever program is run and however the session is worked.

## Implementation notes

A run breaks down when a lookup fails. An attempt is therefore sound if nothing has broken
down in it yet and its run is at a place where no lookup fails. Soundness is an invariant of
attempts as long as no run is made to break down.
-/

namespace Rocket

/-- Whether an outcome tells of no breakdown. -/
structure Outcome.IsFaultless (outcome : Outcome) : Prop where
  status : outcome.status ≠ .fault
  log : ∀ message, .executionError message ∉ outcome.log

/-- A step does not tell of a breakdown. -/
theorem Run.entry_of_next {run after : Run} {step : Step}
    (next : run.next = .ok (some (step, after))) (message : String) :
    step.entry ≠ .executionError message := by
  obtain ⟨-, -, p, effect, acts, -, shown⟩ := exists_acts_of_next next
  rw [shown]
  cases acts <;> exact nofun

namespace Attempt

/-- Whether nothing has broken down in an attempt, nor will under an observer without a
trap. -/
structure IsSound (attempt : Attempt) : Prop where
  run : ∀ run, attempt.run? = some run → run.IsReady
  status : attempt.status? ≠ some .fault
  log : ∀ message, .executionError message ∉ attempt.log

variable {attempt : Attempt} {monitor : Monitor} {world : World}

theorem IsSound.deliver (sound : attempt.IsSound) {run after : Run} {step : Step}
    (ready : run.IsReady) (next : run.next = .ok (some (step, after))) (monitor : Monitor) :
    (attempt.deliver step after monitor).attempt.IsSound where
  run := by
    rintro _ ⟨⟩
    exact ready.next next
  status := sound.status
  log := by
    intro message member
    obtain before | last := Array.mem_push.1 member
    · exact sound.log message before
    · exact Run.entry_of_next next message last.symm

theorem IsSound.next (sound : attempt.IsSound) (untrapped : monitor.trap? = none) :
    (attempt.next monitor).attempt.IsSound := by
  unfold Attempt.next
  split
  · exact sound
  next run underWay =>
    have ready := sound.run run underWay
    split
    next bad broken =>
      obtain ⟨next?, next⟩ := ready.exists_next
      rw [next] at broken
      cases broken
    next ended => exact ⟨nofun, sound.status, sound.log⟩
    next step after next =>
      split
      next going => exact sound.deliver ready next monitor
      next halt halted =>
        obtain ⟨watching, delivered, -⟩ := deliverLast_of_untrapped untrapped step after halt
        rw [delivered]
        exact sound.deliver ready next watching

theorem IsSound.cancel (sound : attempt.IsSound) (monitor : Monitor) :
    (attempt.cancel monitor).1.IsSound := by
  unfold Attempt.cancel
  split
  · exact ⟨nofun, nofun, sound.log⟩
  · exact sound

/-- Soundness is kept as long as no run is made to break down. -/
theorem isKept_isSound : IsKept True IsSound where
  next := fun sound clear => sound.next (clear trivial)
  cancel := fun monitor sound => sound.cancel monitor
  delay := fun _ sound => ⟨sound.run, sound.status, sound.log⟩

theorem IsSound.isFaultless_outcome (sound : attempt.IsSound) (world : World) :
    (attempt.outcome world).IsFaultless where
  status := by
    intro fault
    cases status : attempt.status? with
    | none =>
        have own : Status.ofHalt attempt.halt? = .fault := by simpa [outcome, status] using fault
        have executed := Status.isExecuted_ofHalt attempt.halt?
        rw [own] at executed
        cases executed
    | some other =>
        obtain rfl : other = .fault := by simpa [outcome, status] using fault
        exact sound.status status
  log := sound.log

end Attempt

namespace Session

variable {session : Session} {monitor : Monitor} {source : String}

/-- The log of a program that is refused tells of no breakdown. -/
theorem executionError_not_mem_refusalLog (findings : Findings) (message : String) :
    .executionError message ∉ refusalLog findings := by
  intro member
  obtain ⟨finding, -, same⟩ := List.mem_map.1 (List.mem_toArray.1 member)
  cases same

/-- A source starts an attempt that is sound. -/
theorem isSound_of_start {attempt : Attempt}
    (started : (session.start source monitor).attempt? = some attempt) : attempt.IsSound := by
  cases running : session.running with
  | true =>
      rw [start_of_running running] at started
      cases started
  | false =>
      cases read : (session.parsed source).program? with
      | none =>
          rw [start_of_none running read] at started
          obtain rfl := Option.some.inj started
          exact ⟨nofun, nofun, executionError_not_mem_refusalLog _⟩
      | some program =>
          obtain ⟨watching, same, -⟩ := start_of_some running read monitor
          rw [same] at started
          obtain rfl := Option.some.inj started
          refine ⟨?_, nofun, fun message => Array.not_mem_empty _⟩
          rintro _ ⟨⟩
          exact Run.isReady_start program session.world

end Session

/-- Whether an answer tells of no breakdown. -/
def Answer.IsFaultless : Answer → Prop
  | .outcome (some told) => told.IsFaultless
  | _ => True

namespace Console

/-- Whether a console is watched without a trap, and the attempt in it is sound. -/
structure IsSound (console : Console) : Prop where
  untrapped : console.monitor.trap? = none
  held : ∀ attempt, console.attempt? = some attempt → attempt.IsSound

variable {console : Console}

theorem isSound_of_none {session : Session} {monitor : Monitor}
    (untrapped : monitor.trap? = none) : IsSound ⟨session, none, monitor⟩ where
  untrapped := untrapped
  held := by
    intro attempt held
    cases held

/-- Whatever is asked of a console that is sound, it tells of no breakdown. -/
theorem IsSound.answerAll (sound : console.IsSound) (requests : List Request) :
    ∀ answer ∈ (console.answerAll requests).1, answer.IsFaultless := by
  have keeps : console.Keeps True Attempt.IsSound console.session.world :=
    ⟨rfl, fun _ => sound.untrapped, sound.held⟩
  intro answer member
  have tells := keeps.answerAll Attempt.isKept_isSound (fun _ => Session.isSound_of_start)
    requests answer member
  unfold Answer.TellsOf at tells
  split at tells
  next told =>
    obtain ⟨attempt, own, rfl⟩ := tells
    exact own.isFaultless_outcome console.session.world
  next other =>
    unfold Answer.IsFaultless
    split
    next told => exact absurd rfl (other told)
    next => trivial

theorem answers_run (console : Console) (source : String) :
    (console.answerAll [.action (.run source)]).1 =
      [.outcome (console.session.run source console.monitor).outcome?] := by
  simp only [Console.answerAll, Console.answer, Console.perform, Console.run]

end Console

namespace Session

variable {level : Level} {session : Session}

/-- The world of a session is the one that its level describes. -/
theorem world_of_ofLevel (valid : ofLevel level = .ok session) :
    level.world = .ok session.world := by
  unfold ofLevel at valid
  cases found : level.world with
  | error error => simp [found, Except.map] at valid
  | ok world =>
      rw [found] at valid
      obtain rfl := Except.ok.inj valid
      rfl

/-- In a level that can be played, nothing about any run of any program is out of range,
and no outcome of a session tells of a breakdown that was not trapped. In any world at
all, the rocket is where it started or on the board, and once on the board it stays
there. -/
theorem safe_in_playable_level (valid : ofLevel level = .ok session) :
    (∀ program steps run, (Run.start program session.world).Makes steps run →
      run.IsInRange level.gridSize.toNat level.maxSteps.toNat ∧
        steps.length ≤ level.maxSteps.toNat + 1) ∧
    (∀ monitor requests, monitor.trap? = none →
      ∀ outcome, .outcome (some outcome) ∈ (Console.answerAll ⟨session, none, monitor⟩ requests).1 →
        outcome.status ≠ .fault ∧ ∀ message, .executionError message ∉ outcome.log) ∧
    ∀ program world steps run, (Run.start program world).Makes steps run →
      (run.agent.position = world.start.position ∨
          world.grid.contains run.agent.position = true) ∧
        ∀ later last, run.Makes later last → world.grid.contains run.agent.position = true →
          world.grid.contains last.agent.position = true := by
  refine ⟨?_, ?_, ?_⟩
  · intro program steps run makes
    exact makes.isInRange (world_of_ofLevel valid)
  · intro monitor requests untrapped outcome member
    have sound : Console.IsSound ⟨session, none, monitor⟩ := Console.isSound_of_none untrapped
    obtain ⟨status, log⟩ := sound.answerAll requests _ member
    exact ⟨status, log⟩
  · intro program world steps run makes
    have same := ((Run.isKept_start program world).makes makes).world_eq
    refine ⟨makes.position, fun later last more inside => ?_⟩
    rw [← same] at inside ⊢
    exact more.contains inside

/-- In the reference level a run turns and moves in a repetition, and is then before its
second iteration. Running a source there, with no attempt under way, is answered by an
outcome that tells of no breakdown. -/
theorem safe_in_playable_level_reference :
    let program : Program := ⟨[⟨.loop 2 [.turn .right, .move], ⟨1, 1, 1⟩⟩]⟩
    let console : Console := ⟨reference, none, .passive⟩
    ofLevel .reference = .ok .reference ∧
      (∃ steps run, (Run.start program reference.world).Makes steps run ∧ steps.length = 2 ∧
        run.cursor.iteration = 1 ∧ run.agent.position = ⟨1, 5⟩ ∧ run.IsInRange 6 10000) ∧
      ∃ outcome, .outcome (some outcome) ∈ (console.answerAll [.action (.run "move();")]).1 ∧
        outcome.status ≠ .fault := by
  intro program console
  have valid : ofLevel .reference = .ok .reference := rfl
  obtain ⟨inRange, faultless, -⟩ := safe_in_playable_level valid
  refine ⟨valid, ?_, reference.outcomeOf "move();", ?_⟩
  · have makes : (Run.start program reference.world).Makes _ _ :=
      Run.Makes.step rfl (Run.Makes.step rfl (Run.Makes.rest _))
    exact ⟨_, _, makes, rfl, rfl, rfl, (inRange program _ _ makes).1⟩
  · have ran : (reference.run "move();" .passive).outcome? =
        some (reference.outcomeOf "move();") :=
      outcome?_run rfl "move();" Monitor.untrapped_passive
    have answered : .outcome (some (reference.outcomeOf "move();")) ∈
        (console.answerAll [.action (.run "move();")]).1 := by
      rw [Console.answers_run, ran]
      exact List.mem_singleton_self _
    exact ⟨answered, (faultless .passive _ rfl _ answered).1⟩

end Session

end Rocket

import Rocket.Proofs.Session.Pace

/-!
# Cancelling behind the last step

An attempt learns that its run is over from a pull that brings no step. Until then it can
be cancelled, although there is nothing left to cancel: a run that has made its last step,
and may have been won by it, counts as aborted. Once the empty pull was made, cancelling
changes nothing.
-/

namespace Rocket

namespace Attempt

variable {attempt : Attempt} {monitor : Monitor}

/-- An attempt that has just delivered a step can be cancelled. -/
theorem status?_cancel_next {step : Step} (fresh : attempt.status? = none)
    (pulled : (attempt.next monitor).step? = some step) (watching : Monitor) :
    ((attempt.next monitor).attempt.cancel watching).1.status? = some .aborted := by
  obtain ⟨made, after, noted, delivered⟩ | ⟨none, -, -⟩ := attempt.next_cases monitor
  · rw [delivered]
    simp [cancel, deliver, fresh]
  · rw [none] at pulled
    cases pulled

theorem status?_next {step : Step} (pulled : (attempt.next monitor).step? = some step) :
    (attempt.next monitor).attempt.status? = attempt.status? := by
  obtain ⟨made, after, noted, delivered⟩ | ⟨none, -, -⟩ := attempt.next_cases monitor
  · rw [delivered]
    rfl
  · rw [none] at pulled
    cases pulled

/-- A viewer who stops aborts the run, whichever step this is behind. -/
theorem status?_play_of_stop (stop : Array Step → Bool) (shown : Array Step)
    (fresh : attempt.status? = none)
    (more : (attempt.play stop monitor shown).steps ≠ shown)
    (stops : stop (attempt.play stop monitor shown).steps = true) :
    (attempt.play stop monitor shown).attempt.status? = some .aborted := by
  refine play_induction (P := fun attempt _ shown played => attempt.status? = none →
    played.steps ≠ shown → stop played.steps = true →
      played.attempt.status? = some .aborted)
    stop ?ends ?stops ?goes attempt monitor shown fresh more stops
  case ends =>
    intro attempt monitor shown pulled fresh more
    exact absurd rfl more
  case stops =>
    intro attempt monitor shown step pulled here _ fresh more stops
    exact status?_cancel_next fresh pulled _
  case goes =>
    intro attempt monitor shown step played pulled here ih fresh more stops
    apply ih ((status?_next pulled).trans fresh) ?_ stops
    intro same
    rw [same, here] at stops
    cases stops

end Attempt

/-- Whether the steps delivered are all that the run of a program makes: the last one
halts the run, or there is one for each action. -/
def Driven.HasEnded (driven : Driven) (program : Program) : Prop :=
  ∃ step, driven.steps.getLast? = some step ∧
    (step.entry.halt?.isSome = true ∨ driven.steps.length = program.actionCount)

namespace Driven

variable {base : Attempt} {program : Program} {world : World} {driven : Driven}

/-- An attempt that has delivered its last step has delivered the whole trace. -/
theorem Follows.steps_of_hasEnded (h : driven.Follows base program world)
    (ended : driven.HasEnded program) : driven.steps = world.trace program := by
  obtain ⟨step, last, ends⟩ := ended
  have short := h.steps_prefix.length_le
  apply h.steps_prefix.eq_of_length
  obtain halts | all := ends
  · obtain ⟨rest, split⟩ := h.steps_prefix
    obtain ⟨front, concat⟩ := List.getLast?_eq_some_iff.1 last
    have size : driven.steps.length = front.length + 1 := by simp [concat]
    have place : (world.trace program)[front.length]? = some step := by
      simp [← split, concat]
    exact size.trans (World.length_traceFrom_of_halt place halts).symm
  · have most := World.length_trace_le world program
    omega

/-- Cancelling an attempt that has delivered all steps aborts it, unless it knows already
that its run is over. -/
theorem Follows.cancel_of_hasEnded (h : driven.Follows base program world)
    (going : driven.stopped = false) (ended : driven.HasEnded program) :
    driven.cancel.finish world =
      if driven.attempt.isDone then (base.settled world (world.trace program)).outcome world
      else (base.aborted world (world.trace program)).outcome world := by
  have all := h.steps_of_hasEnded ended
  cases h with
  | @underWay k run monitor inside made untrapped =>
      dsimp only at all
      rw [all]
      exact finish_of_isDone rfl world
  | settled untrapped =>
      rw [cancel_of_isDone rfl]
      exact finish_of_isDone rfl world
  | aborted inside untrapped => cases going

theorem Follows.status?_of_not_stopped (h : driven.Follows base program world)
    (going : driven.stopped = false) : driven.attempt.status? = none := by
  cases h with
  | underWay inside made untrapped => rfl
  | settled untrapped => rfl
  | aborted inside untrapped => cases going

/-- A viewer who stops behind the last step aborts the run. -/
theorem Follows.play_of_hasEnded (h : driven.Follows base program world)
    (going : driven.stopped = false) {stop : Array Step → Bool} (stops : (driven.play stop).stopped = true)
    (ended : (driven.play stop).HasEnded program) :
    (driven.play stop).finish world =
      (base.aborted world (world.trace program)).outcome world := by
  have follows : (driven.play stop).Follows base program world := h.act (.play stop)
  have all := follows.steps_of_hasEnded ended
  have aborted : (driven.play stop).attempt.status? = some .aborted := by
    rw [Driven.play, going, Bool.false_or, Bool.and_eq_true, Bool.not_eq_true'] at stops
    refine Attempt.status?_play_of_stop stop #[] (h.status?_of_not_stopped going) ?_ stops.2
    intro none
    rw [none] at stops
    cases stops.1
  generalize driven.play stop = played at *
  cases follows with
  | underWay inside made untrapped => cases stops
  | settled untrapped => cases aborted
  | @aborted k monitor inside untrapped =>
      dsimp only at all
      rw [all]
      exact finish_of_isDone rfl world

end Driven

/-- The outcome of a run that was cancelled behind its last step. -/
def Outcome.asAborted (outcome : Outcome) : Outcome :=
  { outcome with won := false, status := .aborted }

namespace Session

variable {session : Session} {level : Level} {source : String} {program : Program}
variable {monitor : Monitor} {drivings : List Driving} {driven : Driven}

/-- What cancelling does behind the last step of a run. An attempt that knows that its
run is over keeps its outcome. As long as no pull was made in vain, and whenever a viewer
stops at the last step, the outcome is that of an aborted run, be it won or not. -/
theorem cancel_behind_last_step (valid : ofLevel level = .ok session)
    (accepted : (session.parsed source).program? = some program)
    (untrapped : monitor.trap? = none)
    (drove : session.drive source monitor drivings = some driven)
    (going : driven.stopped = false) :
    driven.finish session.world = session.outcomeOf source ∧
      (driven.HasEnded program →
        driven.steps = session.stepsOf source ∧
          driven.cancel.finish session.world =
            if driven.attempt.isDone then session.outcomeOf source
            else (session.outcomeOf source).asAborted) ∧
      ∀ stop, (driven.play stop).stopped = true → (driven.play stop).HasEnded program →
        (driven.play stop).finish session.world = (session.outcomeOf source).asAborted := by
  obtain ⟨idle, -⟩ := running_of_ofLevel valid
  obtain ⟨found, same, reaches⟩ := drive_reaches idle source untrapped drivings
  obtain rfl := Option.some.inj (same.symm.trans drove)
  have finish := reaches.finish_of_not_stopped going
  refine ⟨finish, ?_⟩
  cases reaches with
  | refused refused _ _ => exact absurd (refused.symm.trans accepted) nofun
  | accepted accepted' follows =>
      obtain rfl := Option.some.inj (accepted'.symm.trans accepted)
      rw [outcomeOf_of_some accepted, stepsOf_of_some accepted]
      constructor
      · intro ended
        refine ⟨follows.steps_of_hasEnded ended, ?_⟩
        rw [follows.cancel_of_hasEnded going ended]
        rfl
      · intro stop stops ended
        rw [follows.play_of_hasEnded going stops ended]
        rfl

/-- A level whose target is one move away from its start. -/
def nearLevel : Level :=
  { Level.reference with target := ⟨0, 4⟩ }

/-- A session of that level. -/
def nearSession : Session :=
  ⟨nearLevel, { World.reference with target := ⟨0, 4⟩ }, false⟩

/-- The case of the one move that wins the level, pulled once. -/
theorem cancel_behind_last_step_near :
    ∃ program driven, (nearSession.parsed "move();").program? = some program ∧
      nearSession.drive "move();" .passive [.next] = some driven ∧ driven.stopped = false ∧
      driven.HasEnded program ∧
      driven.cancel.finish nearSession.world =
        if driven.attempt.isDone then nearSession.outcomeOf "move();"
        else (nearSession.outcomeOf "move();").asAborted := by
  have valid : ofLevel nearLevel = .ok nearSession := rfl
  have accepted : (nearSession.parsed "move();").program? =
      some ⟨[⟨.primitive .move, ⟨1, 1, 7⟩⟩]⟩ := by
    decide +kernel
  have going : (nearSession.drive "move();" .passive [.next]).map Driven.stopped =
      some false := by
    decide +kernel
  have steps : (nearSession.drive "move();" .passive [.next]).map Driven.steps =
      some [⟨0, 1, ⟨⟨0, 4⟩, .up⟩, .moved ⟨0, 4⟩⟩] := by
    decide +kernel
  cases drove : nearSession.drive "move();" .passive [.next] with
  | none => exact absurd (drove ▸ going) nofun
  | some driven =>
      rw [drove, Option.map_some, Option.some.injEq] at going steps
      have ended : driven.HasEnded ⟨[⟨.primitive .move, ⟨1, 1, 7⟩⟩]⟩ :=
        ⟨_, congrArg List.getLast? steps, .inr (congrArg List.length steps)⟩
      obtain ⟨-, cancelled, -⟩ :=
        cancel_behind_last_step valid accepted Monitor.untrapped_passive drove going
      exact ⟨_, driven, accepted, rfl, going, ended, (cancelled ended).2⟩

/-- The move that wins the level is the only action of its program. When it is delivered
the run is won, unless the attempt is cancelled or its viewer stops then. -/
theorem cancel_behind_last_step_loses :
    ofLevel nearLevel = .ok nearSession ∧
      (nearSession.parsed "move();").program?.map Program.actionCount = some 1 ∧
      (nearSession.drive "move();" .passive [.next]).map (fun driven =>
          (driven.steps.length, (driven.finish nearSession.world).status,
            (driven.finish nearSession.world).won)) =
        some (1, .completed, true) ∧
      (nearSession.drive "move();" .passive [.next, .cancel]).map (fun driven =>
          (driven.steps.length, (driven.finish nearSession.world).status,
            (driven.finish nearSession.world).won)) =
        some (1, .aborted, false) ∧
      (nearSession.drive "move();" .passive [.play fun _ => true]).map (fun driven =>
          (driven.steps.length, (driven.finish nearSession.world).status,
            (driven.finish nearSession.world).won)) =
        some (1, .aborted, false) := by
  refine ⟨rfl, ?_, ?_, ?_, ?_⟩
  · decide +kernel
  · decide +kernel
  · decide +kernel
  · decide +kernel

end Session

end Rocket

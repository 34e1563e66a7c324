import Rocket.Proofs.Run.Trace
import Rocket.Session.Basic

/-!
# Driving an attempt

An attempt can be driven in many ways: pulled step by step, shown to a viewer who may
stop it, cancelled, and all of this in turns. What it delivers are the first steps of the
trace of its program, and what can be seen of it is what these steps say.

## Implementation notes

The attempt, its run and its observer each know something of how far it has come. All
three follow from the number of steps delivered and from one of three phases: the run is
under way, it is known to be over, or it was cancelled.
-/

namespace Rocket

namespace Attempt

/-- The attempt as some steps of its run leave it. -/
def behind (base : Attempt) (world : World) (made : List Step) : Attempt :=
  { base with
    log := (made.map (·.entry)).toArray
    agent := (world.viewAfter made).agent }

/-- The attempt under way behind some steps, with the run that makes the others. -/
def underWay (base : Attempt) (world : World) (made : List Step) (run : Run) : Attempt :=
  { base.behind world made with
    run? := some run
    halt? := none
    status? := none }

/-- The attempt once it is known that its run is over. -/
def settled (base : Attempt) (world : World) (made : List Step) : Attempt :=
  { base.behind world made with
    run? := none
    halt? := (world.viewAfter made).halt?
    status? := none }

/-- The attempt that was cancelled behind some steps. -/
def aborted (base : Attempt) (world : World) (made : List Step) : Attempt :=
  { base.behind world made with
    run? := none
    halt? := none
    status? := some .aborted }

variable {base attempt : Attempt} {program : Program} {world : World} {run : Run} {k : Nat}
variable {monitor : Monitor}

/-- A step that is delivered is behind the attempt. -/
theorem attempt_deliver (made : List Step) (step : Step) (after : Run) (monitor : Monitor) :
    ((base.underWay world made run).deliver step after monitor).attempt =
      base.underWay world (made ++ [step]) after := by
  simp [deliver, underWay, behind, World.viewAfter_concat]

theorem step?_deliver (step : Step) (after : Run) (monitor : Monitor) :
    (attempt.deliver step after monitor).step? = some step := rfl

/-- Under an observer without a trap, the last step is delivered like any other. -/
theorem deliverLast_of_untrapped (untrapped : monitor.trap? = none) (step : Step) (after : Run)
    (halt : Halt) :
    ∃ watching, attempt.deliverLast step after halt monitor =
        attempt.deliver step after watching ∧ watching.trap? = none := by
  have still : (attempt.notify monitor (.runHalted step.line halt after.taken)).trap? = none :=
    untrapped
  refine ⟨_, ?_, still⟩
  rw [deliverLast]
  simp only [still]

/-- As long as there are steps to come, a pull delivers the next one. -/
theorem next_underWay_of_lt (base : Attempt) (made : run.HasMade program world k)
    (inside : k < (world.trace program).length) (untrapped : monitor.trap? = none) :
    ∃ after watching,
      (base.underWay world ((world.trace program).take k) run).next monitor =
          (base.underWay world ((world.trace program).take k) run).deliver
            (world.trace program)[k] after watching ∧
        after.HasMade program world (k + 1) ∧ watching.trap? = none := by
  obtain ⟨after, next, madeNext⟩ := made.next_of_lt inside
  cases ended : after.halt? with
  | none =>
      refine ⟨after, monitor, ?_, madeNext, untrapped⟩
      simp [Attempt.next, underWay, next, ended]
  | some halt =>
      obtain ⟨watching, delivered, still⟩ := deliverLast_of_untrapped untrapped
        (world.trace program)[k] after halt
      refine ⟨after, watching, ?_, madeNext, still⟩
      rw [← delivered]
      simp [Attempt.next, underWay, next, ended]

/-- When all steps were delivered, a pull finds that the run is over. -/
theorem next_underWay_of_end (made : run.HasMade program world (world.trace program).length) :
    (base.underWay world (world.trace program) run).next monitor =
      ⟨none, base.settled world (world.trace program), monitor⟩ := by
  obtain ⟨next, -⟩ := made.next_of_le (Nat.le_refl _)
  have halt : run.halt? = (world.viewAfter (world.trace program)).halt? := by
    have view := congrArg View.halt? made.view
    rwa [List.take_length] at view
  simp [Attempt.next, underWay, next, settled, halt, behind]

theorem deliverLast_cases (attempt : Attempt) (step : Step) (after : Run) (halt : Halt)
    (monitor : Monitor) :
    (∃ watching, attempt.deliverLast step after halt monitor =
        attempt.deliver step after watching) ∨
      ∃ message watching, attempt.deliverLast step after halt monitor =
        attempt.breakDown message watching := by
  unfold deliverLast
  dsimp only
  split
  next clear => exact .inl ⟨_, rfl⟩
  next payload caught => exact .inr ⟨_, _, rfl⟩

/-- What a pull can come to: it delivers a step, or the attempt is done, perhaps because
its run has broken down. -/
theorem next_cases (attempt : Attempt) (monitor : Monitor) :
    (∃ step after watching, attempt.next monitor = attempt.deliver step after watching) ∨
      (attempt.next monitor).step? = none ∧ (attempt.next monitor).attempt.run? = none ∧
        ((attempt.next monitor).attempt.status? = attempt.status? ∨
          (attempt.next monitor).attempt.status? = some .fault) := by
  unfold Attempt.next
  split
  next done => exact .inr ⟨rfl, done, .inl rfl⟩
  next run underWay =>
    split
    next bad broken => exact .inr ⟨rfl, rfl, .inr rfl⟩
    next none => exact .inr ⟨rfl, rfl, .inl rfl⟩
    next step after next =>
      split
      next going => exact .inl ⟨step, after, monitor, rfl⟩
      next halt ended =>
        obtain ⟨watching, delivered⟩ | ⟨message, watching, broken⟩ :=
          attempt.deliverLast_cases step after halt monitor
        · exact .inl ⟨step, after, watching, delivered⟩
        · rw [broken]
          exact .inr ⟨rfl, rfl, .inr rfl⟩

/-- A pull that delivers nothing leaves an attempt that is done. -/
theorem run?_of_next_none (none : (attempt.next monitor).step? = none) :
    (attempt.next monitor).attempt.run? = .none := by
  obtain ⟨step, after, watching, delivered⟩ | ⟨-, done, -⟩ := attempt.next_cases monitor
  · rw [delivered] at none
    cases none
  · exact done

theorem next_of_isDone (done : attempt.run? = none) (monitor : Monitor) :
    attempt.next monitor = ⟨none, attempt, monitor⟩ := by
  simp [Attempt.next, done]

/-- Showing ends when a pull delivers nothing. -/
theorem play_of_none (stop : Array Step → Bool) (shown : Array Step)
    (none : (attempt.next monitor).step? = none) :
    attempt.play stop monitor shown =
      ⟨shown, (attempt.next monitor).attempt, (attempt.next monitor).monitor⟩ := by
  rw [play]
  split
  next => rfl
  next step found => simp [none] at found

/-- Showing goes on behind a step that is delivered, unless the viewer stops there. -/
theorem play_of_some (stop : Array Step → Bool) (shown : Array Step) {step : Step}
    (some : (attempt.next monitor).step? = some step) :
    attempt.play stop monitor shown =
      if stop (shown.push step) then
        let cancelled := (attempt.next monitor).attempt.cancel (attempt.next monitor).monitor
        ⟨shown.push step, cancelled.1, cancelled.2⟩
      else
        (attempt.next monitor).attempt.play stop (attempt.next monitor).monitor
          (shown.push step) := by
  rw [play]
  split
  next found => simp [some] at found
  next other found =>
    obtain rfl := Option.some.inj (found.symm.trans some)
    rfl

/-- What holds of showing steps: it has to hold where the steps end and where the viewer
stops, and to carry over from the showing of the steps behind the next one. -/
theorem play_induction {P : Attempt → Monitor → Array Step → Played → Prop}
    (stop : Array Step → Bool)
    (ends : ∀ attempt monitor shown, (attempt.next monitor).step? = none →
      P attempt monitor shown
        ⟨shown, (attempt.next monitor).attempt, (attempt.next monitor).monitor⟩)
    (stops : ∀ attempt monitor shown step, (attempt.next monitor).step? = some step →
      stop (shown.push step) = true →
        let cancelled := (attempt.next monitor).attempt.cancel (attempt.next monitor).monitor
        P attempt monitor shown ⟨shown.push step, cancelled.1, cancelled.2⟩)
    (goes : ∀ attempt monitor shown step played, (attempt.next monitor).step? = some step →
      stop (shown.push step) = false →
        P (attempt.next monitor).attempt (attempt.next monitor).monitor (shown.push step) played →
          P attempt monitor shown played)
    (attempt : Attempt) (monitor : Monitor) (shown : Array Step) :
    P attempt monitor shown (attempt.play stop monitor shown) := by
  induction size : attempt.budget using Nat.strongRecOn generalizing attempt monitor shown with
  | ind n ih =>
      cases pulled : (attempt.next monitor).step? with
      | none =>
          rw [play_of_none stop shown pulled]
          exact ends attempt monitor shown pulled
      | some step =>
          rw [play_of_some stop shown pulled]
          by_cases here : stop (shown.push step) = true
          · rw [if_pos here]
            exact stops attempt monitor shown step pulled here
          · rw [if_neg here]
            have less := budget_lt_of_next pulled
            rw [size] at less
            apply goes attempt monitor shown step _ pulled (Bool.eq_false_iff.2 here)
            exact ih _ less _ _ _ rfl

theorem play_of_isDone (done : attempt.run? = none) (stop : Array Step → Bool)
    (shown : Array Step) : attempt.play stop monitor shown = ⟨shown, attempt, monitor⟩ := by
  have next := next_of_isDone done monitor
  rw [play_of_none stop shown (by rw [next]), next]

theorem cancel_of_isDone (done : attempt.run? = none) :
    attempt.cancel monitor = (attempt, monitor) := by
  simp [cancel, done]

end Attempt

/-- What has come of driving an attempt. -/
structure Driven where
  /-- The steps delivered, in order. -/
  steps : List Step
  attempt : Attempt
  monitor : Monitor
  /-- Whether the run was to be cancelled, by its driver or by a viewer of its steps. -/
  stopped : Bool

/-- What can be done to drive an attempt. -/
inductive Driving where
  /-- Pull a step. -/
  | next
  /-- Show the remaining steps to a viewer, who stops behind some of those shown. -/
  | play (stop : Array Step → Bool)
  | cancel

namespace Driven

/-- An attempt that is not yet driven. -/
def start (attempt : Attempt) (monitor : Monitor) : Driven :=
  ⟨[], attempt, monitor, false⟩

def next (driven : Driven) : Driven :=
  let pulled := driven.attempt.next driven.monitor
  { driven with
    steps := driven.steps ++ pulled.step?.toList
    attempt := pulled.attempt
    monitor := pulled.monitor }

def play (driven : Driven) (stop : Array Step → Bool) : Driven :=
  let played := driven.attempt.play stop driven.monitor #[]
  { steps := driven.steps ++ played.steps.toList
    attempt := played.attempt
    monitor := played.monitor
    stopped := driven.stopped || !played.steps.isEmpty && stop played.steps }

def cancel (driven : Driven) : Driven :=
  let (attempt, monitor) := driven.attempt.cancel driven.monitor
  { driven with attempt, monitor, stopped := true }

def act (driven : Driven) : Driving → Driven
  | .next => driven.next
  | .play stop => driven.play stop
  | .cancel => driven.cancel

def actAll (driven : Driven) (drivings : List Driving) : Driven :=
  drivings.foldl act driven

/-- The outcome when the remaining steps are made. -/
def finish (driven : Driven) (world : World) : Outcome :=
  (driven.attempt.finish world driven.monitor).1

/-- Whether an attempt at a program was driven so far without a breakdown: the steps
delivered, the attempt and what was done to it fit together. -/
inductive Follows (base : Attempt) (program : Program) (world : World) : Driven → Prop
  | underWay {k : Nat} {run : Run} {monitor : Monitor} (inside : k ≤ (world.trace program).length)
      (made : run.HasMade program world k) (untrapped : monitor.trap? = none) :
      Follows base program world
        { steps := (world.trace program).take k
          attempt := base.underWay world ((world.trace program).take k) run
          monitor
          stopped := false }
  | settled {monitor : Monitor} {stopped : Bool} (untrapped : monitor.trap? = none) :
      Follows base program world
        { steps := world.trace program
          attempt := base.settled world (world.trace program)
          monitor
          stopped }
  | aborted {k : Nat} {monitor : Monitor} (inside : k ≤ (world.trace program).length)
      (untrapped : monitor.trap? = none) :
      Follows base program world
        { steps := (world.trace program).take k
          attempt := base.aborted world ((world.trace program).take k)
          monitor
          stopped := true }

variable {base : Attempt} {program : Program} {world : World} {driven : Driven}

/-! ## Attempts that are done -/

theorem next_of_isDone (done : driven.attempt.run? = none) : driven.next = driven := by
  simp [Driven.next, Attempt.next_of_isDone done]

theorem play_of_isDone (done : driven.attempt.run? = none) (stop : Array Step → Bool) :
    driven.play stop = driven := by
  simp [Driven.play, Attempt.play_of_isDone done]

theorem cancel_of_isDone (done : driven.attempt.run? = none) :
    driven.cancel = { driven with stopped := true } := by
  simp [Driven.cancel, Attempt.cancel_of_isDone done]

theorem act_of_isDone (done : driven.attempt.run? = none) (driving : Driving) :
    ∃ stopped, driven.act driving = { driven with stopped } := by
  cases driving with
  | next => exact ⟨driven.stopped, next_of_isDone done⟩
  | play stop => exact ⟨driven.stopped, play_of_isDone done stop⟩
  | cancel => exact ⟨true, cancel_of_isDone done⟩

/-- However an attempt is driven that is done, it stays as it is. -/
theorem actAll_of_isDone (done : driven.attempt.run? = none) (drivings : List Driving) :
    ∃ stopped, driven.actAll drivings = { driven with stopped } := by
  induction drivings generalizing driven with
  | nil => exact ⟨driven.stopped, rfl⟩
  | cons driving rest ih =>
      obtain ⟨stopped, first⟩ := act_of_isDone done driving
      have still : { driven with stopped }.attempt.run? = none := done
      obtain ⟨last, others⟩ := ih still
      refine ⟨last, ?_⟩
      rw [actAll, List.foldl_cons, first]
      exact others

/-- The outcome of an attempt that is done is settled. -/
theorem finish_of_isDone (done : driven.attempt.run? = none) (world : World) :
    driven.finish world = driven.attempt.outcome world := by
  rw [finish, Attempt.finish, Attempt.playOut, Attempt.play_of_isDone done]

theorem finish_actAll_of_isDone (done : driven.attempt.run? = none) (drivings : List Driving)
    (world : World) : (driven.actAll drivings).finish world = driven.attempt.outcome world := by
  obtain ⟨stopped, stays⟩ := actAll_of_isDone done drivings
  rw [stays]
  exact finish_of_isDone done world

/-! ## Attempts under way -/

/-- A pull delivers the next step of the trace, if there is one. -/
theorem Follows.next (h : driven.Follows base program world) :
    driven.next.Follows base program world := by
  cases h with
  | @underWay k run monitor inside made untrapped =>
      by_cases last : k = (world.trace program).length
      · subst last
        rw [List.take_length]
        dsimp only [Driven.next]
        rw [Attempt.next_underWay_of_end made]
        dsimp only
        rw [Option.toList_none, List.append_nil]
        exact .settled untrapped
      · have more : k < (world.trace program).length := by omega
        obtain ⟨after, watching, next, madeNext, clear⟩ :=
          Attempt.next_underWay_of_lt base made more untrapped
        have delivered : (world.trace program).take k ++ [(world.trace program)[k]] =
            (world.trace program).take (k + 1) := List.take_append_getElem more
        dsimp only [Driven.next]
        rw [next, Attempt.attempt_deliver, Attempt.step?_deliver, Option.toList_some, delivered]
        exact .underWay more madeNext clear
  | settled untrapped =>
      rw [next_of_isDone rfl]
      exact .settled untrapped
  | aborted inside untrapped =>
      rw [next_of_isDone rfl]
      exact .aborted inside untrapped

/-- Cancelling an attempt under way aborts it; any other stays as it is. -/
theorem Follows.cancel (h : driven.Follows base program world) :
    driven.cancel.Follows base program world := by
  cases h with
  | underWay inside made untrapped => exact .aborted inside untrapped
  | settled untrapped =>
      rw [cancel_of_isDone rfl]
      exact .settled untrapped
  | aborted inside untrapped =>
      rw [cancel_of_isDone rfl]
      exact .aborted inside untrapped

theorem Follows.isDone_cancel (h : driven.Follows base program world) :
    driven.cancel.attempt.run? = none := by
  cases h with
  | underWay inside made untrapped => rfl
  | settled untrapped =>
      rw [cancel_of_isDone rfl]
      rfl
  | aborted inside untrapped =>
      rw [cancel_of_isDone rfl]
      rfl

/-- Showing the steps to a viewer comes to pulling them, and to cancelling the run when
the viewer stops. -/
theorem follows_play (stop : Array Step → Bool) (attempt : Attempt) (monitor : Monitor)
    (shown : Array Step) {front : List Step} {stopped : Bool}
    (h : Follows base program world ⟨front, attempt, monitor, stopped⟩) :
    ∃ more, (attempt.play stop monitor shown).steps = shown ++ more.toArray ∧
      (attempt.play stop monitor shown).attempt.run? = none ∧
      Follows base program world
        { steps := front ++ more
          attempt := (attempt.play stop monitor shown).attempt
          monitor := (attempt.play stop monitor shown).monitor
          stopped := stopped ||
            !more.isEmpty && stop (attempt.play stop monitor shown).steps } := by
  refine Attempt.play_induction (P := fun attempt monitor shown played =>
    ∀ front stopped, Follows base program world ⟨front, attempt, monitor, stopped⟩ →
      ∃ more, played.steps = shown ++ more.toArray ∧ played.attempt.run? = none ∧
        Follows base program world
          { steps := front ++ more
            attempt := played.attempt
            monitor := played.monitor
            stopped := stopped || !more.isEmpty && stop played.steps })
    stop ?ends ?stops ?goes attempt monitor shown front stopped h
  case ends =>
    intro attempt monitor shown pulled front stopped h
    have after := h.next
    dsimp only [Driven.next] at after
    rw [pulled, Option.toList_none] at after
    exact ⟨[], by simp, Attempt.run?_of_next_none pulled, by simpa using after⟩
  case stops =>
    intro attempt monitor shown step pulled here _ front stopped h
    have after := h.next
    dsimp only [Driven.next] at after
    rw [pulled, Option.toList_some] at after
    have cancelled := after.cancel
    dsimp only [Driven.cancel] at cancelled
    refine ⟨[step], by simp, after.isDone_cancel, ?_⟩
    simpa [here] using cancelled
  case goes =>
    intro attempt monitor shown step played pulled here ih front stopped h
    have after := h.next
    dsimp only [Driven.next] at after
    rw [pulled, Option.toList_some] at after
    obtain ⟨more, steps, done, follows⟩ := ih _ _ after
    have order : front ++ [step] ++ more = front ++ step :: more := by simp
    rw [order] at follows
    refine ⟨step :: more, by simp [steps], done, ?_⟩
    cases more with
    | nil =>
        have unstopped : played.steps = shown.push step := by simpa using steps
        simpa [unstopped, here] using follows
    | cons later rest => exact follows

/-- However an attempt is driven next, it keeps to the trace. -/
theorem Follows.act (h : driven.Follows base program world) (driving : Driving) :
    (driven.act driving).Follows base program world := by
  cases driving with
  | next => exact h.next
  | play stop =>
      obtain ⟨more, steps, -, follows⟩ := follows_play stop _ _ #[] h
      have all : (driven.attempt.play stop driven.monitor #[]).steps.toList = more := by
        simp [steps]
      have some : (driven.attempt.play stop driven.monitor #[]).steps.isEmpty = more.isEmpty := by
        simp [steps]
      rw [Driven.act, Driven.play, all, some]
      exact follows
  | cancel => exact h.cancel

theorem Follows.actAll (h : driven.Follows base program world) (drivings : List Driving) :
    (driven.actAll drivings).Follows base program world := by
  induction drivings generalizing driven with
  | nil => exact h
  | cons driving rest ih => exact ih (h.act driving)

/-- An attempt at a program keeps to the trace before it is driven. -/
theorem follows_start (base : Attempt) (program : Program) (world : World) {monitor : Monitor}
    (untrapped : monitor.trap? = none) :
    (start (base.underWay world [] (.start program world)) monitor).Follows base program world :=
  .underWay (Nat.zero_le _) (Run.hasMade_start program world) untrapped

/-- It does not matter which observer without a trap looks on. -/
theorem Follows.watchedBy (h : driven.Follows base program world) {monitor : Monitor}
    (untrapped : monitor.trap? = none) :
    Follows base program world { driven with monitor } := by
  cases h with
  | underWay inside made _ => exact .underWay inside made untrapped
  | settled _ => exact .settled untrapped
  | aborted inside _ => exact .aborted inside untrapped

/-- The steps delivered are the first ones of the trace. -/
theorem Follows.steps_prefix (h : driven.Follows base program world) :
    driven.steps <+: world.trace program := by
  cases h with
  | underWay inside made untrapped => exact List.take_prefix _ _
  | settled untrapped => exact List.prefix_rfl
  | aborted inside untrapped => exact List.take_prefix _ _

/-- The attempt shows what the steps delivered say. -/
theorem Follows.attempt_eq (h : driven.Follows base program world) :
    driven.attempt.agent = (world.viewAfter driven.steps).agent ∧
      driven.attempt.log = (driven.steps.map (·.entry)).toArray := by
  cases h with
  | underWay inside made untrapped => exact ⟨rfl, rfl⟩
  | settled untrapped => exact ⟨rfl, rfl⟩
  | aborted inside untrapped => exact ⟨rfl, rfl⟩

/-- An attempt that was stopped before its last step was delivered is aborted there. -/
theorem Follows.attempt_of_stopped (h : driven.Follows base program world)
    (stopped : driven.stopped = true) (short : driven.steps.length < (world.trace program).length) :
    driven.attempt = base.aborted world driven.steps := by
  cases h with
  | underWay inside made untrapped => cases stopped
  | settled untrapped => exact absurd short (Nat.lt_irrefl _)
  | aborted inside untrapped => rfl

/-- An attempt that is done without being stopped has delivered all steps. -/
theorem Follows.settled_of_isDone (h : driven.Follows base program world)
    (going : driven.stopped = false) (done : driven.attempt.run? = none) :
    driven.steps = world.trace program ∧
      driven.attempt = base.settled world (world.trace program) := by
  cases h with
  | underWay inside made untrapped => cases done
  | settled untrapped => exact ⟨rfl, rfl⟩
  | aborted inside untrapped => cases going

/-- Showing all steps that are left delivers the others of the trace. -/
theorem Follows.playOut (h : driven.Follows base program world) (going : driven.stopped = false) :
    driven.steps ++ (driven.attempt.playOut driven.monitor).steps.toList = world.trace program ∧
      (driven.attempt.playOut driven.monitor).attempt =
        base.settled world (world.trace program) := by
  obtain ⟨more, steps, done, follows⟩ := follows_play (fun _ => false) _ _ #[] h
  rw [going, Bool.and_false, Bool.or_false] at follows
  obtain ⟨all, attempt⟩ := follows.settled_of_isDone rfl done
  refine ⟨?_, attempt⟩
  rw [Attempt.playOut, steps]
  simpa using all

/-- An attempt that was not stopped finishes with the outcome of all steps. -/
theorem Follows.finish_of_not_stopped (h : driven.Follows base program world)
    (going : driven.stopped = false) :
    driven.finish world = (base.settled world (world.trace program)).outcome world := by
  rw [finish, Attempt.finish]
  dsimp only
  rw [(h.playOut going).2]

end Driven

end Rocket

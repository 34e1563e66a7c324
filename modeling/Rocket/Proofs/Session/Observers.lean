import Rocket.Proofs.Session.Pace
import Rocket.Session.Script

/-!
# Observers

What happens in a session does not depend on the notices that its observer has collected.
It depends on the trap that the observer may hold, and on this only as far as the trap
springs, which it does once at most.

## Implementation notes

Everything that is done in a session is done under an observer and passes one on. The
three facts are therefore stated of functions of an observer, and they carry over from the
parts of a composite to the whole.
-/

namespace Rocket

variable {α β : Type}

/-- Whether what is done under an observer depends on it through its trap alone. The same
trap leads to the same result, a trap that does not spring leads to the result without a
trap, and what remains is the trap or none. -/
structure IsWatched (f : Monitor → α × Monitor) : Prop where
  alike : ∀ {monitor other : Monitor}, monitor.trap? = other.trap? →
    (f monitor).1 = (f other).1 ∧ (f monitor).2.trap? = (f other).2.trap?
  unsprung : ∀ {monitor other : Monitor}, other.trap? = none →
    (f monitor).2.trap? = monitor.trap? → (f monitor).1 = (f other).1
  once : ∀ monitor : Monitor,
    (f monitor).2.trap? = monitor.trap? ∨ (f monitor).2.trap? = none

namespace IsWatched

variable {f : Monitor → α × Monitor} {g : α → Monitor → β × Monitor}

/-- What has one result, and does no more than report events, is watched. -/
theorem of_fst_eq {a : α}
    (same : ∀ monitor, (f monitor).1 = a ∧ (f monitor).2.trap? = monitor.trap?) :
    IsWatched f where
  alike := by
    intro monitor other alike
    rw [(same monitor).1, (same other).1, (same monitor).2, (same other).2]
    exact ⟨rfl, alike⟩
  unsprung := by
    intro monitor other _ _
    rw [(same monitor).1, (same other).1]
  once := fun monitor => .inl (same monitor).2

theorem pure (a : α) : IsWatched fun monitor => (a, monitor) :=
  of_fst_eq fun _ => ⟨rfl, rfl⟩

theorem trap?_of_none (h : IsWatched f) {monitor : Monitor} (none : monitor.trap? = .none) :
    (f monitor).2.trap? = .none := by
  obtain same | gone := h.once monitor
  · exact same.trans none
  · exact gone

/-- What is done in two parts is watched if both parts are. -/
theorem bind (first : IsWatched f) (second : ∀ monitor, IsWatched (g (f monitor).1)) :
    IsWatched fun monitor => g (f monitor).1 (f monitor).2 where
  alike := by
    intro monitor other same
    obtain ⟨result, trap⟩ := first.alike same
    rw [← result]
    exact (second monitor).alike trap
  unsprung := by
    intro monitor other none kept
    -- A trap that is still there at the end was there in between.
    have between : (f monitor).2.trap? = monitor.trap? := by
      obtain same | gone := first.once monitor
      · exact same
      · rw [(second monitor).trap?_of_none gone] at kept
        exact gone.trans kept
    rw [← first.unsprung none between]
    exact (second monitor).unsprung (first.trap?_of_none none) (kept.trans between.symm)
  once := by
    intro monitor
    obtain same | gone := first.once monitor
    · rw [← same]
      exact (second monitor).once _
    · exact .inr ((second monitor).trap?_of_none gone)

/-- What is made of a result does not need the observer. -/
theorem map (h : IsWatched f) (k : α → β) :
    IsWatched fun monitor => (k (f monitor).1, (f monitor).2) :=
  h.bind (g := fun a monitor => (k a, monitor)) fun _ => .pure _

/-- Springing a trap is watched: what comes of it depends on the trap, which is gone. -/
theorem of_spring {spring : Option Payload → α}
    (springs : ∀ monitor, (f monitor).1 = spring monitor.trap? ∧ (f monitor).2.trap? = none) :
    IsWatched f where
  alike := by
    intro monitor other same
    rw [(springs monitor).1, (springs other).1, same, (springs monitor).2, (springs other).2]
    exact ⟨rfl, rfl⟩
  unsprung := by
    intro monitor other none kept
    rw [(springs monitor).2] at kept
    rw [(springs monitor).1, (springs other).1, none, ← kept]
  once := fun monitor => .inr (springs monitor).2

end IsWatched

/-! ## Attempts -/

/-- What a pull brings, and the observer after it. -/
def Pulled.result (pulled : Pulled) : (Option Step × Attempt) × Monitor :=
  ((pulled.step?, pulled.attempt), pulled.monitor)

namespace Attempt

variable {attempt : Attempt} {run after : Run} {step : Step}

/-- What was shown, and the observer after it. -/
def Played.result (played : Played) : (Array Step × Attempt) × Monitor :=
  ((played.steps, played.attempt), played.monitor)

/-- The attempt when its run has broken down. -/
def broken (attempt : Attempt) (message : String) : Attempt :=
  { attempt with
    log := attempt.log.push (.executionError (Fault.text ⟨.execute, message⟩))
    run? := none
    status? := some .fault }

/-- The attempt when its run has brought a step. -/
def advanced (attempt : Attempt) (step : Step) (after : Run) : Attempt :=
  { attempt with
    log := attempt.log.push step.entry
    agent := step.agent
    run? := some after }

theorem result_breakDown (attempt : Attempt) (message : String) (monitor : Monitor) :
    (attempt.breakDown message monitor).result.1 = (none, attempt.broken message) ∧
      (attempt.breakDown message monitor).result.2.trap? = monitor.trap? :=
  ⟨rfl, rfl⟩

theorem result_deliver (attempt : Attempt) (step : Step) (after : Run) (monitor : Monitor) :
    (attempt.deliver step after monitor).result.1 = (some step, attempt.advanced step after) ∧
      (attempt.deliver step after monitor).result.2.trap? = monitor.trap? :=
  ⟨rfl, rfl⟩

/-- What comes of the last step: it is delivered, unless a trap springs. -/
def lastResult (attempt : Attempt) (step : Step) (after : Run) :
    Option Payload → Option Step × Attempt
  | none => (some step, attempt.advanced step after)
  | some payload => (none, attempt.broken payload.text)

theorem result_deliverLast (attempt : Attempt) (step : Step) (after : Run) (halt : Halt)
    (monitor : Monitor) :
    (attempt.deliverLast step after halt monitor).result.1 =
        attempt.lastResult step after monitor.trap? ∧
      (attempt.deliverLast step after halt monitor).result.2.trap? = none := by
  have same : (attempt.notify monitor (.runHalted step.line halt after.taken)).trap? =
      monitor.trap? := rfl
  unfold deliverLast
  dsimp only
  rw [same]
  cases trap : monitor.trap? with
  | none => exact ⟨rfl, trap⟩
  | some payload => exact ⟨rfl, rfl⟩

/-- A step that does not halt its run is delivered, whoever looks on. -/
theorem result_next_of_going (underWay : attempt.run? = some run)
    (next : run.next = .ok (some (step, after))) (going : after.halt? = none)
    (monitor : Monitor) :
    (attempt.next monitor).result.1 = (some step, attempt.advanced step after) ∧
      (attempt.next monitor).result.2.trap? = monitor.trap? := by
  simp only [Attempt.next, underWay, next, going]
  exact attempt.result_deliver step after monitor

/-- A step that halts its run is delivered unless a trap springs. -/
theorem result_next_of_halted (underWay : attempt.run? = some run)
    (next : run.next = .ok (some (step, after))) (halted : after.halt?.isSome = true)
    (monitor : Monitor) :
    (attempt.next monitor).result.1 = attempt.lastResult step after monitor.trap? ∧
      (attempt.next monitor).result.2.trap? = none := by
  obtain ⟨halt, halted⟩ := Option.isSome_iff_exists.1 halted
  simp only [Attempt.next, underWay, next, halted]
  exact attempt.result_deliverLast step after halt monitor

theorem isWatched_next (attempt : Attempt) :
    IsWatched fun monitor => (attempt.next monitor).result := by
  cases underWay : attempt.run? with
  | none =>
      simp only [Attempt.next, underWay]
      exact .pure (none, attempt)
  | some run =>
      cases next : run.next with
      | error bad =>
          simp only [Attempt.next, underWay, next]
          exact .of_fst_eq (attempt.result_breakDown bad.text)
      | ok pulled? =>
          cases pulled? with
          | none =>
              simp only [Attempt.next, underWay, next]
              exact .pure (none, { attempt with run? := none, halt? := run.halt? })
          | some pulled =>
              obtain ⟨step, after⟩ := pulled
              by_cases halted : after.halt?.isSome = true
              · exact .of_spring (result_next_of_halted underWay next halted)
              · have going : after.halt? = none := by simpa using halted
                exact .of_fst_eq (result_next_of_going underWay next going)

/-- Cancelling does the same to an attempt, whoever looks on. -/
theorem cancel_fst (attempt : Attempt) (monitor other : Monitor) :
    (attempt.cancel monitor).1 = (attempt.cancel other).1 := by
  unfold cancel
  split <;> rfl

theorem trap?_cancel (attempt : Attempt) (monitor : Monitor) :
    (attempt.cancel monitor).2.trap? = monitor.trap? := by
  unfold cancel
  split <;> rfl

theorem isWatched_cancel (attempt : Attempt) : IsWatched attempt.cancel :=
  .of_fst_eq (a := (attempt.cancel .passive).1) fun monitor =>
    ⟨attempt.cancel_fst monitor .passive, attempt.trap?_cancel monitor⟩

/-- How showing goes on when a pull has brought something or not. -/
def playOn (stop : Array Step → Bool) (shown : Array Step) :
    Option Step × Attempt → Monitor → (Array Step × Attempt) × Monitor
  | (none, attempt), monitor => ((shown, attempt), monitor)
  | (some step, attempt), monitor =>
      if stop (shown.push step) then
        let cancelled := attempt.cancel monitor
        ((shown.push step, cancelled.1), cancelled.2)
      else (attempt.play stop monitor (shown.push step)).result

theorem result_play (stop : Array Step → Bool) (attempt : Attempt) (monitor : Monitor)
    (shown : Array Step) :
    (attempt.play stop monitor shown).result =
      playOn stop shown (attempt.next monitor).result.1 (attempt.next monitor).result.2 := by
  cases pulled : (attempt.next monitor).step? with
  | none =>
      rw [play_of_none stop shown pulled]
      simp only [Pulled.result, pulled]
      rfl
  | some step =>
      rw [play_of_some stop shown pulled]
      simp only [Pulled.result, pulled, playOn]
      split <;> rfl

theorem isWatched_play (stop : Array Step → Bool) (attempt : Attempt) (shown : Array Step) :
    IsWatched fun monitor => (attempt.play stop monitor shown).result := by
  induction size : attempt.budget using Nat.strongRecOn generalizing attempt shown with
  | ind n ih =>
      simp only [result_play]
      refine attempt.isWatched_next.bind fun monitor => ?_
      cases pulled : (attempt.next monitor).step? with
      | none =>
          simp only [Pulled.result, pulled]
          exact .pure _
      | some step =>
          simp only [Pulled.result, pulled]
          unfold playOn
          by_cases here : stop (shown.push step) = true
          · simp only [here, if_true]
            exact (isWatched_cancel _).map fun attempt => (shown.push step, attempt)
          · simp only [here]
            have less := budget_lt_of_next pulled
            rw [size] at less
            exact ih _ less _ _ rfl

theorem isWatched_finish (attempt : Attempt) (world : World) :
    IsWatched (attempt.finish world) :=
  (isWatched_play (fun _ => false) attempt #[]).bind
    (g := fun shown monitor =>
      let outcome := shown.2.outcome world
      (outcome, shown.2.notify monitor
        (.runFinished outcome.status outcome.won outcome.log.size)))
    fun monitor =>
      .of_fst_eq (a := (attempt.playOut monitor).attempt.outcome world) fun _ => ⟨rfl, rfl⟩

end Attempt

/-! ## Sessions -/

/-- What comes of starting a source, and the observer after it. -/
def Started.result (started : Started) : (Option Attempt × Session) × Monitor :=
  ((started.attempt?, started.session), started.monitor)

namespace Session

variable {session : Session} {source : String}

/-- What comes of running a source, and the observer after it. -/
def Ran.result (ran : Ran) : (Option Outcome × Session) × Monitor :=
  ((ran.outcome?, ran.session), ran.monitor)

/-- While an attempt is under way, a source is refused. -/
theorem start_of_running (running : session.running = true) (source : String)
    (monitor : Monitor) :
    session.start source monitor = ⟨none, session, monitor.record none .runRefused⟩ :=
  if_pos running

theorem isWatched_start (session : Session) (source : String) :
    IsWatched fun monitor => (session.start source monitor).result := by
  cases running : session.running with
  | true =>
      simp only [start_of_running running]
      exact .of_fst_eq (a := (none, session)) fun _ => ⟨rfl, rfl⟩
  | false =>
      cases read : (session.parsed source).program? with
      | none =>
          simp only [start_of_none running read]
          exact .pure (some (session.refusedAttempt source), { session with running := true })
      | some program =>
          refine .of_fst_eq (a := (some ((session.readAttempt source).underWay session.world []
            (.start program session.world)), { session with running := true })) fun monitor => ?_
          obtain ⟨watching, started, same⟩ := start_of_some running read monitor
          rw [started]
          exact ⟨rfl, same⟩

/-- How running a source goes on when it was started or refused. -/
def runOn : Option Attempt × Session → Monitor → (Option Outcome × Session) × Monitor
  | (none, session), monitor => ((none, session), monitor)
  | (some attempt, session), monitor =>
      ((some (attempt.finish session.world monitor).1, session.release),
        (attempt.finish session.world monitor).2)

theorem result_run (session : Session) (source : String) (monitor : Monitor) :
    (session.run source monitor).result =
      runOn (session.start source monitor).result.1
        (session.start source monitor).result.2 := by
  rw [run]
  generalize session.start source monitor = started
  obtain ⟨_ | attempt, session, monitor⟩ := started <;> rfl

theorem isWatched_run (session : Session) (source : String) :
    IsWatched fun monitor => (session.run source monitor).result := by
  simp only [result_run]
  refine (session.isWatched_start source).bind fun monitor => ?_
  obtain ⟨_ | attempt, after⟩ := (session.start source monitor).result.1
  · exact .pure (none, after)
  · exact (attempt.isWatched_finish after.world).map fun outcome => (some outcome, after.release)

end Session

namespace Console

/-- What can be asked of a session and of the attempt under way in it: an action, or to
show the remaining steps to a viewer, who stops behind some of those shown. -/
inductive Request where
  | action (action : Action)
  | play (stop : Array Step → Bool)

/-- Answer a request. -/
def answer (console : Console) : Request → Answer × Console
  | .action action => console.perform action
  | .play stop =>
      match console.attempt? with
      | none => (.noAttempt, console)
      | some attempt =>
          let played := attempt.play stop console.monitor #[]
          (.played played.steps, ⟨console.session, some played.attempt, played.monitor⟩)

/-- Answer some requests in order. -/
def answerAll (console : Console) : List Request → List Answer × Console
  | [] => ([], console)
  | request :: rest =>
      let (first, next) := console.answer request
      let (others, last) := next.answerAll rest
      (first :: others, last)

/-- What was said to a request or several and what it leaves behind, and the observer after
it. -/
def result {α : Type} (answered : α × Console) : (α × Session × Option Attempt) × Monitor :=
  ((answered.1, answered.2.session, answered.2.attempt?), answered.2.monitor)

/-- The steps and the attempt when some steps were pulled, and the observer after them. -/
def pulled (attempt : Attempt) (count : Nat) (monitor : Monitor) :
    (List (Option Step) × Attempt) × Monitor :=
  let (steps, attempt, monitor) := pull attempt monitor count
  ((steps, attempt), monitor)

theorem isWatched_pulled (attempt : Attempt) (count : Nat) :
    IsWatched (pulled attempt count) := by
  induction count generalizing attempt with
  | zero => exact .pure ([], attempt)
  | succ count ih =>
      exact attempt.isWatched_next.bind
        (g := fun next monitor => ((next.1 :: (pulled next.2 count monitor).1.1,
          (pulled next.2 count monitor).1.2), (pulled next.2 count monitor).2))
        fun monitor => (ih _).map fun others => (_ :: others.1, others.2)

/-- What a console holds when a source was started in it or refused. -/
def startOn (attempt? : Option Attempt) (delay? : Option Nat) :
    Option Attempt × Session → Answer × Session × Option Attempt
  | (none, session) => (.started false, session, attempt?)
  | (some attempt, session) =>
      (.started true, session, some { attempt with delay := delay?.getD attempt.delay })

theorem result_start (session : Session) (attempt? : Option Attempt) (source : String)
    (delay? : Option Nat) (monitor : Monitor) :
    result (start ⟨session, attempt?, monitor⟩ source delay?) =
      (startOn attempt? delay? (session.start source monitor).result.1,
        (session.start source monitor).result.2) := by
  unfold start
  dsimp only
  generalize session.start source monitor = started
  obtain ⟨_ | attempt, session, monitor⟩ := started <;> rfl

theorem isWatched_start (session : Session) (attempt? : Option Attempt) (source : String)
    (delay? : Option Nat) :
    IsWatched fun monitor => result (start ⟨session, attempt?, monitor⟩ source delay?) := by
  simp only [result_start]
  exact (session.isWatched_start source).map (startOn attempt? delay?)

theorem isWatched_onAttempt (session : Session) (attempt : Attempt) (action : AttemptAction) :
    IsWatched fun monitor => result (onAttempt session attempt monitor action) := by
  cases action with
  | next count =>
      exact (isWatched_pulled attempt count).map fun (steps, attempt) =>
        (Answer.pulled steps, session, some attempt)
  | play stopAfter =>
      exact (attempt.isWatched_play (stopsAfter stopAfter) #[]).map fun (steps, attempt) =>
        (Answer.played steps, session, some attempt)
  | cancel =>
      exact attempt.isWatched_cancel.map fun attempt => (Answer.done, session, some attempt)
  | board => exact .pure (Answer.board (session.world.picture attempt.agent), session, some attempt)
  | findings => exact .pure (Answer.findings attempt.findings, session, some attempt)
  | finish =>
      exact (attempt.isWatched_finish session.world).map fun outcome =>
        (Answer.outcome (some outcome), session.release, none)
  | drop => exact .pure (Answer.done, session.release, none)

theorem isWatched_answer (session : Session) (attempt? : Option Attempt) (request : Request) :
    IsWatched fun monitor => result (answer ⟨session, attempt?, monitor⟩ request) := by
  cases request with
  | action action =>
      cases action with
      | run source =>
          exact (session.isWatched_run source).map fun (outcome?, session) =>
            (Answer.outcome outcome?, session, attempt?)
      | start source delay? => exact isWatched_start session attempt? source delay?
      | info =>
          exact .pure (Answer.info session.world session.level session.level.stepDelay.toNat,
            session, attempt?)
      | onAttempt action =>
          cases attempt? with
          | none => exact .pure (Answer.noAttempt, session, none)
          | some attempt => exact isWatched_onAttempt session attempt action
  | play stop =>
      cases attempt? with
      | none => exact .pure (Answer.noAttempt, session, none)
      | some attempt =>
          exact (attempt.isWatched_play stop #[]).map fun (steps, attempt) =>
            (Answer.played steps, session, some attempt)

/-- However many requests are answered, the answers and what they leave behind depend on
the observer through its trap alone. -/
theorem isWatched_answerAll (session : Session) (attempt? : Option Attempt)
    (requests : List Request) :
    IsWatched fun monitor => result (answerAll ⟨session, attempt?, monitor⟩ requests) := by
  induction requests generalizing session attempt? with
  | nil => exact .pure ([], session, attempt?)
  | cons request rest ih =>
      exact (isWatched_answer session attempt? request).bind
        (g := fun first monitor =>
          let others := result (answerAll ⟨first.2.1, first.2.2, monitor⟩ rest)
          ((first.1 :: others.1.1, others.1.2), others.2))
        fun monitor => (ih _ _).map fun others => (_ :: others.1, others.2)

end Console

end Rocket

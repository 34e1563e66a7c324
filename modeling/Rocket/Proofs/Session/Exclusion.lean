import Rocket.Proofs.Session.Observers

/-!
# One attempt at a time

A session has an attempt under way from the moment it is started until it is finished or
dropped, whatever becomes of it in between. As long as it is there, no other source is let
in, and asking for one does not disturb it. Once it is gone, the session is as good as new:
an attempt that was cancelled, abandoned or broken leaves no trace in the next.

## Implementation notes

The history of a session is a list of requests. Each was answered under an observer of its
own, so that any of them may have met a trap. The first part of the module follows the
session alone through such a history. What can still be told apart behind it is the
observer, which has no say as long as its trap does not spring.
-/

namespace Rocket

namespace Session

variable {session : Session} {monitor : Monitor}

/-- A session with nothing under way starts every source, whoever looks on. -/
theorem start_of_idle (idle : session.running = false) (source : String) (monitor : Monitor) :
    ∃ attempt watching, session.start source monitor =
      ⟨some attempt, { session with running := true }, watching⟩ := by
  cases read : (session.parsed source).program? with
  | none => exact ⟨_, _, start_of_none idle read monitor⟩
  | some program =>
      obtain ⟨watching, started, -⟩ := start_of_some idle read monitor
      exact ⟨_, watching, started⟩

/-- Running a source to its end leaves the session as it was. A source is run unless
another one is under way. -/
theorem run_spec (session : Session) (source : String) (monitor : Monitor) :
    (session.run source monitor).session = session ∧
      (session.run source monitor).outcome?.isSome = !session.running := by
  cases running : session.running with
  | true =>
      rw [run, start_of_running running]
      exact ⟨rfl, rfl⟩
  | false =>
      obtain ⟨attempt, watching, started⟩ := start_of_idle running source monitor
      rw [run, started]
      refine ⟨?_, rfl⟩
      change { session with running := false } = session
      rw [← running]

end Session

namespace Console

namespace Request

/-- Whether an attempt is alive behind a request: it lives from its start until it is
finished or dropped. -/
def leavesAlive (alive : Bool) : Request → Bool
  | .action (.start _ _) => true
  | .action (.onAttempt .finish) | .action (.onAttempt .drop) => false
  | _ => alive

/-- Whether a request is one for another run. -/
def isForRun : Request → Bool
  | .action (.run _) | .action (.start _ _) => true
  | _ => false

end Request

/-- Whether an attempt is alive behind some requests to a session that had none. -/
def aliveBehind (history : List (Monitor × Request)) : Bool :=
  history.foldl (fun alive request => request.2.leavesAlive alive) false

/-- The console behind some requests, each of them answered under an observer of its own. -/
def behind (console : Console) (history : List (Monitor × Request)) : Console :=
  history.foldl (fun console request =>
    (answer { console with monitor := request.1 } request.2).2) console

/-- Whether a console of a session holds an attempt exactly if one is said to be alive. -/
structure Holds (session : Session) (alive : Bool) (console : Console) : Prop where
  session_eq : console.session = { session with running := alive }
  isSome : console.attempt?.isSome = alive

variable {session : Session} {console : Console} {alive : Bool}

/-- Whatever becomes of an attempt under way, it is held until it is finished or dropped. -/
theorem holds_onAttempt {held : Session} (same : held = { session with running := true })
    (attempt : Attempt) (monitor : Monitor) (action : AttemptAction) :
    Holds session (Request.leavesAlive true (.action (.onAttempt action)))
      (onAttempt held attempt monitor action).2 := by
  cases action with
  | next count => exact ⟨same, rfl⟩
  | play stopAfter => exact ⟨same, rfl⟩
  | cancel => exact ⟨same, rfl⟩
  | board => exact ⟨same, rfl⟩
  | findings => exact ⟨same, rfl⟩
  | finish => exact ⟨same ▸ rfl, rfl⟩
  | drop => exact ⟨same ▸ rfl, rfl⟩

/-- A source is started unless an attempt is alive, which then stays as it is. -/
theorem Holds.start (h : console.Holds session alive) (source : String) (delay? : Option Nat) :
    (console.start source delay?).1 = .started (!alive) ∧
      (console.start source delay?).2.Holds session true := by
  obtain ⟨held, attempt?, monitor⟩ := console
  obtain ⟨rfl, isSome⟩ := h
  cases alive with
  | true =>
      rw [Console.start, Session.start_of_running rfl]
      exact ⟨rfl, rfl, isSome⟩
  | false =>
      have idle : ({ session with running := false } : Session).running = false := rfl
      obtain ⟨attempt, watching, started⟩ := Session.start_of_idle idle source monitor
      rw [Console.start, started]
      exact ⟨rfl, rfl, rfl⟩

/-- A source is run unless an attempt is alive, and leaves things as they are. -/
theorem Holds.run (h : console.Holds session alive) (source : String) :
    (∃ outcome?, (console.run source).1 = .outcome outcome? ∧ outcome?.isSome = !alive) ∧
      (console.run source).2.Holds session alive := by
  obtain ⟨same, some⟩ := console.session.run_spec source console.monitor
  refine ⟨⟨_, rfl, ?_⟩, ?_, h.isSome⟩
  · rw [some, h.session_eq]
  · exact same.trans h.session_eq

/-- Every request leaves an attempt alive or not, as is said of it. -/
theorem Holds.answer (h : console.Holds session alive) (request : Request) :
    (console.answer request).2.Holds session (request.leavesAlive alive) := by
  cases request with
  | action action =>
      cases action with
      | run source => exact (h.run source).2
      | start source delay? => exact (h.start source delay?).2
      | info => exact h
      | onAttempt action =>
          obtain ⟨held, attempt?, monitor⟩ := console
          obtain ⟨same, isSome⟩ := h
          cases attempt? with
          | none =>
              obtain rfl : false = alive := isSome
              cases action <;> exact ⟨same, rfl⟩
          | some attempt =>
              obtain rfl : true = alive := isSome
              exact holds_onAttempt same attempt monitor action
  | play stop =>
      obtain ⟨held, attempt?, monitor⟩ := console
      obtain ⟨same, isSome⟩ := h
      cases attempt? with
      | none => exact ⟨same, isSome⟩
      | some attempt => exact ⟨same, isSome⟩

/-- It does not matter for this who looks on. -/
theorem Holds.watchedBy (h : console.Holds session alive) (monitor : Monitor) :
    Holds session alive { console with monitor } :=
  ⟨h.session_eq, h.isSome⟩

/-- However many requests were answered, an attempt is held exactly if one is alive. -/
theorem Holds.behind (h : console.Holds session alive) (history : List (Monitor × Request)) :
    (console.behind history).Holds session
      (history.foldl (fun alive request => request.2.leavesAlive alive) alive) := by
  induction history generalizing console alive with
  | nil => exact h
  | cons request rest ih => exact ih ((h.watchedBy request.1).answer request.2)

theorem Holds.answerAll (h : console.Holds session alive) (requests : List Request) :
    (console.answerAll requests).2.Holds session
      (requests.foldl (fun alive request => request.leavesAlive alive) alive) := by
  induction requests generalizing console alive with
  | nil => exact h
  | cons request rest ih => exact ih (h.answer request)

/-- Consoles that differ in their observers only give the same answers, as long as these
hold the same trap. -/
theorem result_answerAll_of_alike {other : Console} (session : console.session = other.session)
    (attempt : console.attempt? = other.attempt?)
    (trap : console.monitor.trap? = other.monitor.trap?) (requests : List Request) :
    (result (console.answerAll requests)).1 = (result (other.answerAll requests)).1 := by
  obtain ⟨held, attempt?, monitor⟩ := console
  obtain ⟨_, _, watching⟩ := other
  obtain rfl := session
  obtain rfl := attempt
  exact ((isWatched_answerAll held attempt? requests).alike trap).1

/-- A trap that does not spring makes no difference to the answers. -/
theorem result_answerAll_of_unsprung (requests : List Request)
    (unsprung : (console.answerAll requests).2.monitor.trap? = console.monitor.trap?) :
    (result (console.answerAll requests)).1 =
      (result (answerAll { console with monitor := .passive } requests)).1 :=
  (isWatched_answerAll console.session console.attempt? requests).unsprung
    Monitor.untrapped_passive unsprung

/-- A run that is refused leaves nothing but a notice. -/
theorem Holds.refused (h : console.Holds session true) {request : Request}
    (another : request.isForRun = true) :
    ∃ answer watching, console.answer request = (answer, { console with monitor := watching }) ∧
      watching.trap? = console.monitor.trap? := by
  have running : console.session.running = true := by rw [h.session_eq]
  match request with
  | .action (.run source) =>
      refine ⟨.outcome none, console.monitor.record none .runRefused, ?_, rfl⟩
      rw [Console.answer, perform, Console.run, Session.run, Session.start_of_running running]
  | .action (.start source delay?) =>
      refine ⟨.started false, console.monitor.record none .runRefused, ?_, rfl⟩
      rw [Console.answer, perform, Console.start, Session.start_of_running running]

/-- Whether a console lets one attempt be alive at a time, and none leave a trace in the
next. -/
structure IsExclusive (session : Session) (alive : Bool) (console : Console) : Prop where
  running : console.session.running = alive
  held : console.attempt?.isSome = alive
  start : ∀ source delay?, (console.start source delay?).1 = .started (!alive)
  run : ∀ source, ∃ outcome?,
    (console.run source).1 = .outcome outcome? ∧ outcome?.isSome = !alive
  /-- A run that is refused leaves the attempt as it is, and all that will come of it. -/
  refused : alive = true → ∀ request : Request, request.isForRun = true →
    (console.answer request).2.session = console.session ∧
      (console.answer request).2.attempt? = console.attempt? ∧
      ∀ later, (result ((console.answer request).2.answerAll later)).1 =
        (result (console.answerAll later)).1
  /-- With no attempt alive, all that comes as long as no trap springs is what comes of the
  session when it is new. -/
  fresh : alive = false → ∀ later,
    (console.answerAll later).2.monitor.trap? = console.monitor.trap? →
      (result (console.answerAll later)).1 =
        (result (answerAll ⟨session, none, .passive⟩ later)).1

end Console

namespace Session

open Console

variable {session : Session}

/-- Whatever was asked of a session and whoever looked on, it has one attempt alive at most,
which a run that is refused does not disturb, and which leaves no trace in the next. -/
theorem one_attempt_at_a_time {level : Level} (valid : ofLevel level = .ok session)
    (history : List (Monitor × Request)) (monitor : Monitor) :
    IsExclusive session (aliveBehind history)
      { behind ⟨session, none, .passive⟩ history with monitor } := by
  obtain ⟨idle, -⟩ := running_of_ofLevel valid
  have new : Holds session false ⟨session, none, .passive⟩ := ⟨by rw [← idle], rfl⟩
  have holds := (new.behind history).watchedBy monitor
  change Holds session (aliveBehind history) _ at holds
  generalize aliveBehind history = alive at holds ⊢
  generalize { behind ⟨session, none, .passive⟩ history with monitor } = console at holds ⊢
  constructor
  case running => rw [holds.session_eq]
  case held => exact holds.isSome
  case start => exact fun source delay? => (holds.start source delay?).1
  case run => exact fun source => (holds.run source).1
  case refused =>
    rintro rfl request another
    obtain ⟨answer, watching, refused, same⟩ := holds.refused another
    rw [refused]
    exact ⟨rfl, rfl, result_answerAll_of_alike rfl rfl same⟩
  case fresh =>
    rintro rfl later unsprung
    have none : console.attempt? = none := by simpa using holds.isSome
    have same : console.session = session := by rw [holds.session_eq, ← idle]
    rw [result_answerAll_of_unsprung later unsprung, same, none]

/-- In the reference level an attempt that was cancelled is still alive. Once it is dropped,
and when a run has broken down besides, the session is as good as new. -/
theorem one_attempt_at_a_time_reference :
    let cancelled : List (Monitor × Request) :=
      [(.passive, .action (.start "move();" none)), (.passive, .action (.onAttempt .cancel))]
    let broken : List (Monitor × Request) :=
      cancelled ++ [(.passive, .action (.run "move();")), (.passive, .action (.onAttempt .drop)),
        (⟨#[], some .other⟩, .action (.run "turnLeft();\nmove();"))]
    let console := { behind ⟨reference, none, .passive⟩ broken with monitor := .passive }
    ofLevel .reference = .ok .reference ∧
      IsExclusive reference true
        { behind ⟨reference, none, .passive⟩ cancelled with monitor := .passive } ∧
      IsExclusive reference false console ∧
      (result (console.answerAll [.action (.run "move();")])).1 =
        (result (answerAll ⟨reference, none, .passive⟩ [.action (.run "move();")])).1 := by
  intro cancelled broken console
  have valid : ofLevel .reference = .ok .reference := rfl
  have free : IsExclusive reference false console := one_attempt_at_a_time valid broken .passive
  refine ⟨valid, one_attempt_at_a_time valid cancelled .passive, free, ?_⟩
  apply free.fresh rfl
  decide +kernel

end Session

end Rocket

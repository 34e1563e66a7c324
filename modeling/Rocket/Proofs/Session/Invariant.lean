import Rocket.Proofs.Session.Observers

/-!
# Invariants of attempts

What holds of every attempt when it is started, and is kept by a pull and by a cancellation,
holds of all attempts in a session, however the session is worked. Every outcome that a
session tells of is then that of such an attempt.

## Implementation notes

Some invariants are kept only as long as no run is made to break down. For these the
observers have to be without a trap, which they stay if they are so at first.
-/

namespace Rocket

namespace Attempt

/-- Whether a property of attempts is kept by what can be done to them, under an observer
without a trap if it has to be `calm`. -/
structure IsKept (calm : Prop) (P : Attempt → Prop) : Prop where
  next : ∀ {attempt : Attempt} {monitor : Monitor}, P attempt →
    (calm → monitor.trap? = none) → P (attempt.next monitor).attempt
  cancel : ∀ {attempt : Attempt} (monitor : Monitor), P attempt → P (attempt.cancel monitor).1
  delay : ∀ {attempt : Attempt} (delay : Nat), P attempt → P { attempt with delay }

variable {calm : Prop} {P : Attempt → Prop} {attempt : Attempt} {monitor : Monitor}

theorem IsKept.play (kept : IsKept calm P) (holds : P attempt)
    (clear : calm → monitor.trap? = none) (stop : Array Step → Bool) (shown : Array Step) :
    P (attempt.play stop monitor shown).attempt := by
  refine play_induction (P := fun attempt monitor _ played =>
    P attempt → (calm → monitor.trap? = none) → P played.attempt)
    stop ?ends ?stops ?goes attempt monitor shown holds clear
  case ends =>
    intro attempt monitor shown _ holds clear
    exact kept.next holds clear
  case stops =>
    intro attempt monitor shown step _ _ cancelled holds clear
    exact kept.cancel _ (kept.next holds clear)
  case goes =>
    intro attempt monitor shown step played _ _ others holds clear
    exact others (kept.next holds clear) fun calm =>
      attempt.isWatched_next.trap?_of_none (clear calm)

theorem IsKept.pulled (kept : IsKept calm P) (holds : P attempt)
    (clear : calm → monitor.trap? = none) (count : Nat) :
    P (Console.pulled attempt count monitor).1.2 := by
  induction count generalizing attempt monitor with
  | zero => exact holds
  | succ count ih =>
      exact ih (kept.next holds clear) fun calm =>
        attempt.isWatched_next.trap?_of_none (clear calm)

end Attempt

namespace Session

/-- A session keeps its world when a source is started. -/
theorem world_start (session : Session) (source : String) (monitor : Monitor) :
    (session.start source monitor).session.world = session.world := by
  unfold start
  split <;> rfl

/-- A session keeps its world when a source is run. -/
theorem world_run (session : Session) (source : String) (monitor : Monitor) :
    (session.run source monitor).session.world = session.world := by
  have same := session.world_start source monitor
  unfold run
  generalize session.start source monitor = start at same ⊢
  obtain ⟨_ | attempt, after, watching⟩ := start <;> exact same

end Session

/-- Whether an answer that tells of an outcome tells of that of an attempt with a property. -/
def Answer.TellsOf (P : Attempt → Prop) (world : World) : Answer → Prop
  | .outcome (some told) => ∃ attempt, P attempt ∧ told = Attempt.outcome attempt world
  | _ => True

namespace Console

/-- Whether the attempt in a console has a property, and the observer no trap if it has to be
`calm`. -/
structure Keeps (calm : Prop) (P : Attempt → Prop) (world : World) (console : Console) :
    Prop where
  world_eq : console.session.world = world
  clear : calm → console.monitor.trap? = none
  held : ∀ attempt, console.attempt? = some attempt → P attempt

variable {calm : Prop} {P : Attempt → Prop} {world : World} {console : Console}

theorem keeps_of_none {session : Session} {monitor : Monitor}
    (world_eq : session.world = world) (clear : calm → monitor.trap? = none) :
    Keeps calm P world ⟨session, none, monitor⟩ where
  world_eq := world_eq
  clear := clear
  held := by
    intro attempt held
    cases held

section Kept

variable (kept : Attempt.IsKept calm P)
include kept

/-- Whatever is done with an attempt, its property is kept. -/
theorem keeps_onAttempt {session : Session} {attempt : Attempt} {monitor : Monitor}
    (world_eq : session.world = world) (holds : P attempt) (clear : calm → monitor.trap? = none)
    (action : AttemptAction) :
    (onAttempt session attempt monitor action).2.Keeps calm P world ∧
      (onAttempt session attempt monitor action).1.TellsOf P world := by
  have watched : calm → (onAttempt session attempt monitor action).2.monitor.trap? = none :=
    fun calm => (isWatched_onAttempt session attempt action).trap?_of_none (clear calm)
  cases action with
  | next count =>
      refine ⟨⟨world_eq, watched, ?_⟩, trivial⟩
      rintro _ ⟨⟩
      exact kept.pulled holds clear count
  | play stopAfter =>
      refine ⟨⟨world_eq, watched, ?_⟩, trivial⟩
      rintro _ ⟨⟩
      exact kept.play holds clear (stopsAfter stopAfter) #[]
  | cancel =>
      refine ⟨⟨world_eq, watched, ?_⟩, trivial⟩
      rintro _ ⟨⟩
      exact kept.cancel monitor holds
  | board =>
      refine ⟨⟨world_eq, watched, ?_⟩, trivial⟩
      rintro _ ⟨⟩
      exact holds
  | findings =>
      refine ⟨⟨world_eq, watched, ?_⟩, trivial⟩
      rintro _ ⟨⟩
      exact holds
  | finish =>
      refine ⟨keeps_of_none world_eq watched, _, kept.play holds clear (fun _ => false) #[], ?_⟩
      rw [← world_eq]
      rfl
  | drop => exact ⟨keeps_of_none world_eq watched, trivial⟩

variable (started : ∀ {session : Session} {source : String} {monitor : Monitor}
    {attempt : Attempt}, session.world = world →
      (session.start source monitor).attempt? = some attempt → P attempt)
include started

theorem Keeps.start (keeps : console.Keeps calm P world) (source : String)
    (delay? : Option Nat) :
    (console.start source delay?).2.Keeps calm P world ∧
      (console.start source delay?).1.TellsOf P world := by
  have watched : calm → (console.start source delay?).2.monitor.trap? = none := fun calm =>
    (isWatched_start console.session console.attempt? source delay?).trap?_of_none
      (keeps.clear calm)
  have same := console.session.world_start source console.monitor
  have holds : ∀ attempt, (console.session.start source console.monitor).attempt? =
      some attempt → P attempt := fun _ => started keeps.world_eq
  unfold Console.start at watched ⊢
  generalize console.session.start source console.monitor = start at watched same holds ⊢
  obtain ⟨_ | attempt, after, watching⟩ := start
  · exact ⟨⟨same.trans keeps.world_eq, watched, keeps.held⟩, trivial⟩
  · refine ⟨⟨same.trans keeps.world_eq, watched, ?_⟩, trivial⟩
    rintro _ ⟨⟩
    exact kept.delay _ (holds attempt rfl)

/-- A source that is run to its end has the outcome of an attempt with the property. -/
theorem exists_of_run {session : Session} {monitor : Monitor} {source : String}
    {outcome : Outcome} (world_eq : session.world = world) (clear : calm → monitor.trap? = none)
    (ran : (session.run source monitor).outcome? = some outcome) :
    ∃ attempt, P attempt ∧ outcome = attempt.outcome world := by
  have watched : calm → (session.start source monitor).monitor.trap? = none := fun calm =>
    (session.isWatched_start source).trap?_of_none (clear calm)
  have same := session.world_start source monitor
  have holds : ∀ attempt, (session.start source monitor).attempt? = some attempt → P attempt :=
    fun _ => started world_eq
  unfold Session.run at ran
  generalize session.start source monitor = start at ran watched same holds
  obtain ⟨_ | attempt, after, watching⟩ := start
  · cases ran
  · obtain rfl := Option.some.inj ran
    refine ⟨_, kept.play (holds attempt rfl) watched (fun _ => false) #[], ?_⟩
    rw [← world_eq, ← same]
    rfl

theorem Keeps.run (keeps : console.Keeps calm P world) (source : String) :
    (console.run source).2.Keeps calm P world ∧ (console.run source).1.TellsOf P world := by
  have same := console.session.world_run source console.monitor
  refine ⟨⟨same.trans keeps.world_eq, fun calm =>
    (console.session.isWatched_run source).trap?_of_none (keeps.clear calm), keeps.held⟩, ?_⟩
  cases ran : (console.session.run source console.monitor).outcome? with
  | none => simp only [Console.run, ran, Answer.TellsOf]
  | some outcome =>
      simp only [Console.run, ran, Answer.TellsOf]
      exact exists_of_run kept started keeps.world_eq keeps.clear ran

/-- Whatever is asked of a session, the property of its attempt is kept. -/
theorem Keeps.answer (keeps : console.Keeps calm P world) (request : Request) :
    (console.answer request).2.Keeps calm P world ∧
      (console.answer request).1.TellsOf P world := by
  cases request with
  | action action =>
      cases action with
      | run source => exact keeps.run kept started source
      | start source delay? => exact keeps.start kept started source delay?
      | info => exact ⟨keeps, trivial⟩
      | onAttempt action =>
          obtain ⟨session, _ | attempt, monitor⟩ := console
          · exact ⟨keeps, trivial⟩
          · exact keeps_onAttempt kept keeps.world_eq (keeps.held attempt rfl) keeps.clear action
  | play stop =>
      obtain ⟨session, _ | attempt, monitor⟩ := console
      · exact ⟨keeps, trivial⟩
      · refine ⟨⟨keeps.world_eq, fun calm =>
          (attempt.isWatched_play stop #[]).trap?_of_none (keeps.clear calm), ?_⟩, trivial⟩
        rintro _ ⟨⟩
        exact kept.play (keeps.held attempt rfl) keeps.clear stop #[]

/-- Every outcome that is told of is that of an attempt with the property. -/
theorem Keeps.answerAll (keeps : console.Keeps calm P world) (requests : List Request) :
    ∀ answer ∈ (console.answerAll requests).1, answer.TellsOf P world := by
  induction requests generalizing console with
  | nil => exact nofun
  | cons request rest ih =>
      obtain ⟨next, tells⟩ := keeps.answer kept started request
      exact List.forall_mem_cons.2 ⟨tells, ih next⟩

end Kept

end Console

end Rocket

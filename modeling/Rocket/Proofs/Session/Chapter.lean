import Rocket.Proofs.Run.Safety
import Rocket.Proofs.Session.Coherence
import Rocket.Proofs.Session.Observers
import Rocket.Session.Script

/-!
# Chapters of a session

What happens to one attempt, from its start until it is finished or dropped, makes a
chapter. A chapter says which steps were delivered and how they came to an end, and hence
which events there are to be told. An observer without a trap hears just these events,
in their order.

## Implementation notes

A chapter grows with the operations on its attempt. What an operation reports is compared
with what the chapter tells behind it and did not tell before, so that the comparison
carries over to any sequence of operations, and to the loops that show and finish a run.
-/

namespace Rocket

namespace Monitor

/-- Report some events of one run, or of none. -/
def recordAll (monitor : Monitor) (label? : Option String) (events : List Event) : Monitor :=
  { monitor with notices := monitor.notices ++ (events.map (⟨·, label?⟩)).toArray }

variable {monitor : Monitor} {label? : Option String}

@[simp]
theorem recordAll_nil : monitor.recordAll label? [] = monitor := by
  simp [recordAll]

theorem recordAll_append (first second : List Event) :
    monitor.recordAll label? (first ++ second) =
      (monitor.recordAll label? first).recordAll label? second := by
  simp [recordAll]

theorem record_eq (event : Event) :
    monitor.record label? event = monitor.recordAll label? [event] := by
  simp [record, recordAll]

@[simp]
theorem trap?_recordAll (events : List Event) :
    (monitor.recordAll label? events).trap? = monitor.trap? := rfl

end Monitor

/-- What is told of a step: the step itself, and before it that it ends the run, if it
does, with the number of actions performed by then. -/
def Step.events (step : Step) : List Event :=
  let made := Event.stepMade step.index step.line step.entry
  match step.entry with
  | .blocked origin attempted =>
      [.runHalted step.line (.outOfBounds origin attempted) (step.index + 1), made]
  | .stepLimitExceeded limit => [.runHalted step.line (.stepLimit limit) step.index, made]
  | _ => [made]

theorem Step.events_of_going {step : Step} (going : step.entry.halt? = none) :
    step.events = [.stepMade step.index step.line step.entry] := by
  obtain ⟨index, line, agent, entry⟩ := step
  cases entry <;> first | rfl | cases going

theorem Step.events_of_halt {step : Step} {halt : Halt} (ends : step.entry.halt? = some halt) :
    step.events =
      [.runHalted step.line halt (step.index + (if step.entry.isPerformed then 1 else 0)),
        .stepMade step.index step.line step.entry] := by
  obtain ⟨index, line, agent, entry⟩ := step
  cases entry <;> first | cases ends
  case blocked origin attempted => rfl
  case stepLimitExceeded limit => rfl

/-- A run shows after a step what the step says: whether it ends the run, and how many
actions have been performed. -/
theorem Run.IsReady.view_of_next {run after : Run} {step : Step} (ready : run.IsReady)
    (next : run.next = .ok (some (step, after))) :
    after.halt? = step.entry.halt? ∧
      after.taken = step.index + (if step.entry.isPerformed then 1 else 0) := by
  obtain ⟨going, p, line, behind, -, made⟩ := exists_advance_of_next next
  have view := view_advance run p line behind
  have index : (run.advance p line behind).1.index = run.taken := ready.counted going
  rw [made] at view index
  refine ⟨congrArg View.halt? view, ?_⟩
  rw [show step.index = run.taken from index]
  exact congrArg View.taken view

namespace Attempt

variable {base attempt : Attempt} {program : Program} {world : World} {run after : Run}
variable {step : Step} {monitor : Monitor} {k : Nat}

/-- A pull delivers the step that the run makes, and reports the events of the step. -/
theorem next_of_ready (underWay : attempt.run? = some run) (ready : run.IsReady)
    (next : run.next = .ok (some (step, after))) (untrapped : monitor.trap? = none) :
    attempt.next monitor =
      ⟨some step, attempt.advanced step after,
        monitor.recordAll (some attempt.label) step.events⟩ := by
  obtain ⟨halt, taken⟩ := ready.view_of_next next
  cases ends : step.entry.halt? with
  | none =>
      rw [ends] at halt
      rw [Step.events_of_going ends, ← Monitor.record_eq]
      simp only [Attempt.next, underWay, next, halt]
      rfl
  | some reason =>
      rw [ends] at halt
      have still : (attempt.notify monitor (.runHalted step.line reason after.taken)).trap? =
          none := untrapped
      rw [Step.events_of_halt ends, ← taken, ← List.singleton_append, Monitor.recordAll_append,
        ← Monitor.record_eq, ← Monitor.record_eq]
      simp only [Attempt.next, underWay, next, halt, deliverLast, still]
      rfl

/-- As long as there are steps to come, a pull delivers the next one and reports it. -/
theorem next_underWay (base : Attempt) (made : run.HasMade program world k)
    (inside : k < (world.trace program).length) (untrapped : monitor.trap? = none) :
    ∃ after, after.HasMade program world (k + 1) ∧
      (base.underWay world ((world.trace program).take k) run).next monitor =
        ⟨some (world.trace program)[k],
          base.underWay world ((world.trace program).take (k + 1)) after,
          monitor.recordAll (some base.label) (world.trace program)[k].events⟩ := by
  obtain ⟨after, next, madeNext⟩ := made.next_of_lt inside
  have advanced : (base.underWay world ((world.trace program).take k) run).advanced
      (world.trace program)[k] after =
        base.underWay world ((world.trace program).take (k + 1)) after := by
    rw [← List.take_append_getElem inside]
    exact attempt_deliver _ _ after monitor
  refine ⟨after, madeNext, ?_⟩
  rw [next_of_ready rfl made.ready next untrapped, advanced]
  rfl

end Attempt

/-- A step of a source that halts the run is the last one. -/
theorem Session.length_stepsOf_of_halt {session : Session} {source : String} {i : Nat}
    {step : Step} (there : (session.stepsOf source)[i]? = some step)
    (halts : step.entry.halt?.isSome = true) : (session.stepsOf source).length = i + 1 := by
  cases found : (session.parsed source).program? with
  | none =>
      rw [stepsOf_of_none found] at there
      simp at there
  | some program =>
      rw [stepsOf_of_some found] at there ⊢
      exact World.length_traceFrom_of_halt there halts

/-- What there is to tell of a run: the steps it has delivered, whether it is known that
no other will come, whether it was cancelled before that, and the outcome it was finished
with. -/
structure Chapter where
  source : String
  steps : List Step
  ended : Bool
  cancelled : Bool
  outcome? : Option Outcome

namespace Chapter

section Telling

variable (session : Session)

/-- The beginning of a run. A program that is refused has no run. -/
def start (source : String) : Chapter :=
  ⟨source, [], (session.parsed source).program?.isNone, false, none⟩

/-- A pull has brought a step or none. -/
def deliver (chapter : Chapter) : Option Step → Chapter
  | none => { chapter with ended := true }
  | some step => { chapter with steps := chapter.steps ++ [step] }

/-- Some pulls have brought steps or none. -/
def deliverAll (chapter : Chapter) (steps : List (Option Step)) : Chapter :=
  steps.foldl deliver chapter

/-- Some steps have come, and then no other, because the run was stopped or because there
are no more. -/
def close (chapter : Chapter) (more : List Step) (stopped : Bool) : Chapter :=
  { chapter with
    steps := chapter.steps ++ more
    ended := true
    cancelled := chapter.cancelled || stopped }

/-- The remaining steps were shown to a viewer, who may have stopped the run. -/
def present (stop : Array Step → Bool) (chapter : Chapter) (shown : Array Step) : Chapter :=
  chapter.close shown.toList (!shown.isEmpty && stop shown)

def cancel (chapter : Chapter) : Chapter :=
  if chapter.ended then chapter else { chapter with ended := true, cancelled := true }

/-- The run was finished: unless it was cancelled, all steps of the program are made. -/
def finish (chapter : Chapter) (outcome : Outcome) : Chapter :=
  { chapter with
    steps := if chapter.cancelled then chapter.steps else session.stepsOf chapter.source
    ended := true
    outcome? := some outcome }

/-- The name of the run in events. -/
def label (chapter : Chapter) : String :=
  (session.newAttempt chapter.source).label

/-- The event that tells of the program, if there is one. -/
def opening (chapter : Chapter) : List Event :=
  let parsed := session.parsed chapter.source
  (parsed.program?.map fun program =>
    .programParsed program.statements.length program.actionCount
      parsed.findings.totalWarnings).toList

/-- All events of the run, in their order. -/
def events (chapter : Chapter) : List Event :=
  chapter.opening session ++ chapter.steps.flatMap Step.events
    ++ (if chapter.cancelled then [.runCancelled chapter.steps.length] else [])
    ++ (chapter.outcome?.map fun outcome =>
        .runFinished outcome.status outcome.won outcome.log.size).toList

/-- All events of the run, under its name. -/
def notices (chapter : Chapter) : List Notice :=
  (chapter.events session).map (⟨·, some (chapter.label session)⟩)

end Telling

/-- Whether a chapter tells of the steps that its program makes: the first ones or all, in
their order. Only the last one may end the run, and when all actions were performed, each
was a step. -/
structure IsTold (session : Session) (chapter : Chapter) : Prop where
  steps : chapter.steps <+: session.stepsOf chapter.source
  order : ∀ (i : Nat) (step : Step), chapter.steps[i]? = some step → step.index = i
  last : ∀ (i : Nat) (step : Step), chapter.steps[i]? = some step →
    step.entry.halt?.isSome = true → chapter.steps.length = i + 1
  completed : ∀ outcome, chapter.outcome? = some outcome → outcome.status = .completed →
    ∃ program, (session.parsed chapter.source).program? = some program ∧
      program.actionCount = chapter.steps.length

theorem isTold_of_prefix {session : Session} {chapter : Chapter}
    (steps : chapter.steps <+: session.stepsOf chapter.source)
    (completed : ∀ outcome, chapter.outcome? = some outcome → outcome.status = .completed →
      ∃ program, (session.parsed chapter.source).program? = some program ∧
        program.actionCount = chapter.steps.length) : chapter.IsTold session := by
  have found : ∀ (i : Nat) (step : Step), chapter.steps[i]? = some step →
      (session.stepsOf chapter.source)[i]? = some step := by
    intro i step there
    obtain ⟨rest, all⟩ := steps
    rw [← all]
    exact List.getElem?_append_left (List.getElem?_eq_some_iff.1 there).1 ▸ there
  refine ⟨steps, fun i step there => Session.index_of_stepsOf (found i step there), ?_, completed⟩
  intro i step there halts
  have inside := (List.getElem?_eq_some_iff.1 there).1
  have short := steps.length_le
  rw [Session.length_stepsOf_of_halt (found i step there) halts] at short
  omega

/-- Whether a chapter tells how an attempt stands. -/
inductive Stands (session : Session) : Chapter → Attempt → Prop
  | underWay {source : String} {program : Program} {k : Nat} {run : Run} {delay : Nat}
      (accepted : (session.parsed source).program? = some program)
      (inside : k ≤ (session.world.trace program).length)
      (made : run.HasMade program session.world k) :
      Stands session ⟨source, (session.world.trace program).take k, false, false, none⟩
        (Attempt.underWay { session.readAttempt source with delay } session.world
          ((session.world.trace program).take k) run)
  | settled {source : String} {program : Program} {delay : Nat}
      (accepted : (session.parsed source).program? = some program) :
      Stands session ⟨source, session.world.trace program, true, false, none⟩
        (Attempt.settled { session.readAttempt source with delay } session.world
          (session.world.trace program))
  | aborted {source : String} {program : Program} {k : Nat} {delay : Nat}
      (accepted : (session.parsed source).program? = some program) :
      Stands session ⟨source, (session.world.trace program).take k, true, true, none⟩
        (Attempt.aborted { session.readAttempt source with delay } session.world
          ((session.world.trace program).take k))
  | refused {source : String} {delay : Nat}
      (refused : (session.parsed source).program? = none) :
      Stands session ⟨source, [], true, false, none⟩
        { session.refusedAttempt source with delay }

/-- Whether what is heard between two places in a chapter is what the chapter tells between
them. -/
structure Hears (session : Session) (chapter later : Chapter) (monitor watching : Monitor) :
    Prop where
  source : later.source = chapter.source
  news : ∃ news, later.events session = chapter.events session ++ news ∧
    watching = monitor.recordAll (some (chapter.label session)) news

variable {session : Session} {chapter middle later : Chapter} {attempt : Attempt}
variable {monitor between watching : Monitor}

@[simp]
theorem close_nil (chapter : Chapter) : chapter.close [] false = chapter.deliver none := by
  simp [close, deliver]

@[simp]
theorem close_deliver (chapter : Chapter) (step : Step) (more : List Step) (stopped : Bool) :
    (chapter.deliver (some step)).close more stopped = chapter.close (step :: more) stopped := by
  simp [close, deliver]

/-- Cancelling behind a step closes the chapter there. -/
theorem cancel_deliver (going : chapter.ended = false) (step : Step) :
    (chapter.deliver (some step)).cancel = chapter.close [step] true := by
  simp [cancel, deliver, close, going]

namespace Hears

/-- Where nothing more is told, nothing is heard. -/
theorem silent (source : later.source = chapter.source)
    (same : later.events session = chapter.events session) :
    Hears session chapter later monitor monitor :=
  ⟨source, [], by simp [same], by simp⟩

theorem trans (first : Hears session chapter middle monitor between)
    (second : Hears session middle later between watching) :
    Hears session chapter later monitor watching := by
  obtain ⟨source, news, told, rfl⟩ := first
  obtain ⟨source', news', told', rfl⟩ := second
  refine ⟨source'.trans source, news ++ news', ?_, ?_⟩
  · rw [told', told, List.append_assoc]
  · rw [Monitor.recordAll_append, label, label, source]

/-- At the end of a run its outcome is told. -/
theorem outcome (unfinished : chapter.outcome? = none) (outcome : Outcome) (monitor : Monitor) :
    Hears session chapter { chapter with outcome? := some outcome } monitor
      (monitor.record (some (chapter.label session))
        (.runFinished outcome.status outcome.won outcome.log.size)) where
  source := rfl
  news := ⟨_, by simp [events, opening, unfinished], Monitor.record_eq _⟩

theorem trap? (h : Hears session chapter later monitor watching) :
    watching.trap? = monitor.trap? := by
  obtain ⟨-, news, -, rfl⟩ := h
  rfl

end Hears

namespace Stands

/-- A chapter is over exactly if its attempt is done. -/
theorem ended_eq (stands : Stands session chapter attempt) : chapter.ended = attempt.isDone := by
  cases stands <;> rfl

theorem label_eq (stands : Stands session chapter attempt) :
    attempt.label = chapter.label session := by
  cases stands <;> rfl

theorem outcome?_eq (stands : Stands session chapter attempt) : chapter.outcome? = none := by
  cases stands <;> rfl

/-- A run that was cancelled is over. -/
theorem ended_of_cancelled (stands : Stands session chapter attempt)
    (cancelled : chapter.cancelled = true) : chapter.ended = true := by
  cases stands <;> first | rfl | cases cancelled

theorem run?_of_ended (stands : Stands session chapter attempt) (ended : chapter.ended = true) :
    attempt.run? = none := by
  rw [stands.ended_eq, Attempt.isDone, Option.isNone_iff_eq_none] at ended
  exact ended

/-- A run that came to its end without being cancelled has made all steps. -/
theorem steps_of_ended (stands : Stands session chapter attempt) (ended : chapter.ended = true)
    (kept : chapter.cancelled = false) : chapter.steps = session.stepsOf chapter.source := by
  cases stands with
  | underWay accepted inside made => cases ended
  | settled accepted => exact (Session.stepsOf_of_some accepted).symm
  | aborted accepted => cases kept
  | refused refused => exact (Session.stepsOf_of_none refused).symm

theorem steps_prefix (stands : Stands session chapter attempt) :
    chapter.steps <+: session.stepsOf chapter.source := by
  cases stands with
  | underWay accepted inside made =>
      rw [Session.stepsOf_of_some accepted]
      exact List.take_prefix _ _
  | settled accepted =>
      rw [Session.stepsOf_of_some accepted]
  | aborted accepted =>
      rw [Session.stepsOf_of_some accepted]
      exact List.take_prefix _ _
  | refused refused => exact List.nil_prefix

/-- A pull brings what the chapter tells next. -/
theorem next (stands : Stands session chapter attempt) (untrapped : monitor.trap? = none) :
    Stands session (chapter.deliver (attempt.next monitor).step?)
        (attempt.next monitor).attempt ∧
      Hears session chapter (chapter.deliver (attempt.next monitor).step?) monitor
        (attempt.next monitor).monitor := by
  by_cases ended : chapter.ended = true
  · rw [Attempt.next_of_isDone (stands.run?_of_ended ended)]
    have same : chapter.deliver none = chapter := by rw [deliver, ← ended]
    dsimp only
    rw [same]
    exact ⟨stands, .silent rfl rfl⟩
  · cases stands with
    | @underWay source program k run delay accepted inside made =>
        by_cases last : k = (session.world.trace program).length
        · subst last
          rw [List.take_length, Attempt.next_underWay_of_end made]
          exact ⟨.settled accepted, .silent rfl rfl⟩
        · have more : k < (session.world.trace program).length := by omega
          obtain ⟨after, madeNext, next⟩ :=
            Attempt.next_underWay { session.readAttempt source with delay } made more untrapped
          have order := List.take_append_getElem more
          rw [next]
          dsimp only [deliver]
          rw [order]
          refine ⟨.underWay accepted more madeNext, rfl, _, ?_, rfl⟩
          simp only [events, opening, ← order]
          simp [-List.take_append_getElem]
    | settled accepted => exact absurd rfl ended
    | aborted accepted => exact absurd rfl ended
    | refused refused => exact absurd rfl ended

theorem cancel (stands : Stands session chapter attempt) (monitor : Monitor) :
    Stands session chapter.cancel (attempt.cancel monitor).1 ∧
      Hears session chapter chapter.cancel monitor (attempt.cancel monitor).2 := by
  by_cases ended : chapter.ended = true
  · rw [Attempt.cancel_of_isDone (stands.run?_of_ended ended), Chapter.cancel, if_pos ended]
    exact ⟨stands, .silent rfl rfl⟩
  · rw [Chapter.cancel, if_neg ended]
    cases stands with
    | @underWay source program k run delay accepted inside made =>
        have size : (((session.world.trace program).take k).map (·.entry)).toArray.size =
            ((session.world.trace program).take k).length := by simp
        refine ⟨.aborted accepted, rfl, _, ?_, Monitor.record_eq _⟩
        simp only [events, opening, Attempt.underWay, Attempt.behind, size]
        simp
    | settled accepted => exact absurd rfl ended
    | aborted accepted => exact absurd rfl ended
    | refused refused => exact absurd rfl ended

/-- Some pulls bring what the chapter tells next. -/
theorem pull (stands : Stands session chapter attempt) (untrapped : monitor.trap? = none)
    (count : Nat) :
    let pulled := Console.pull attempt monitor count
    Stands session (chapter.deliverAll pulled.1) pulled.2.1 ∧
      Hears session chapter (chapter.deliverAll pulled.1) monitor pulled.2.2 := by
  induction count generalizing chapter attempt monitor with
  | zero => exact ⟨stands, .silent rfl rfl⟩
  | succ count ih =>
      obtain ⟨after, hears⟩ := stands.next untrapped
      obtain ⟨later, hearsMore⟩ := ih after (hears.trap?.trans untrapped)
      exact ⟨later, hears.trans hearsMore⟩

/-- A step is delivered only as long as the run is not over. -/
theorem ended_of_step? {step : Step} (stands : Stands session chapter attempt)
    (pulled : (attempt.next monitor).step? = some step) : chapter.ended = false := by
  cases ended : chapter.ended with
  | false => rfl
  | true =>
      rw [Attempt.next_of_isDone (stands.run?_of_ended ended)] at pulled
      cases pulled

/-- Showing the remaining steps brings what the chapter tells next. -/
theorem play (stands : Stands session chapter attempt) (untrapped : monitor.trap? = none)
    (stop : Array Step → Bool) :
    let played := attempt.play stop monitor #[]
    Stands session (chapter.present stop played.steps) played.attempt ∧
      Hears session chapter (chapter.present stop played.steps) monitor played.monitor := by
  have shows := Attempt.play_induction (P := fun attempt monitor shown played =>
    ∀ chapter, Stands session chapter attempt → monitor.trap? = none →
      ∃ more, played.steps = shown ++ more.toArray ∧
        let later := chapter.close more (!more.isEmpty && stop played.steps)
        Stands session later played.attempt ∧
          Hears session chapter later monitor played.monitor)
    stop ?ends ?stops ?goes attempt monitor #[] chapter stands untrapped
  case ends =>
    intro attempt monitor shown pulled chapter stands untrapped
    have after := stands.next untrapped
    rw [pulled, ← close_nil] at after
    exact ⟨[], by simp, after⟩
  case stops =>
    intro attempt monitor shown step pulled here _ chapter stands untrapped
    have going := stands.ended_of_step? pulled
    obtain ⟨after, hears⟩ := stands.next untrapped
    rw [pulled] at after hears
    obtain ⟨cancelled, hearsMore⟩ := after.cancel (attempt.next monitor).monitor
    rw [cancel_deliver going step] at cancelled hearsMore
    refine ⟨[step], by simp, ?_⟩
    simp only [here, List.isEmpty_cons, Bool.not_false, Bool.and_true]
    exact ⟨cancelled, hears.trans hearsMore⟩
  case goes =>
    intro attempt monitor shown step played pulled here ih chapter stands untrapped
    obtain ⟨after, hears⟩ := stands.next untrapped
    rw [pulled] at after hears
    obtain ⟨more, steps, later⟩ := ih _ after (hears.trap?.trans untrapped)
    -- A viewer who did not stop behind this step has not stopped if it is the last one.
    have stopped : (!more.isEmpty && stop played.steps) =
        (!(step :: more).isEmpty && stop played.steps) := by
      cases more with
      | nil =>
          have all : played.steps = shown.push step := by simpa using steps
          simp [all, here]
      | cons next rest => rfl
    rw [close_deliver, stopped] at later
    exact ⟨step :: more, by simp [steps], later.1, hears.trans later.2⟩
  obtain ⟨more, steps, later⟩ := shows
  have all : (attempt.play stop monitor #[]).steps.toList = more := by simp [steps]
  have some : (attempt.play stop monitor #[]).steps.isEmpty = more.isEmpty := by simp [steps]
  dsimp only [present]
  rw [all, some]
  exact later

/-- A run that was completed has made one step for each action of its program. -/
theorem actionCount_of_completed (stands : Stands session chapter attempt)
    (ended : chapter.ended = true)
    (completed : (attempt.outcome session.world).status = .completed) :
    ∃ program, (session.parsed chapter.source).program? = some program ∧
      program.actionCount = chapter.steps.length := by
  cases stands with
  | underWay accepted inside made => cases ended
  | @settled source program delay accepted =>
      have shows := Session.shows_settled { session.readAttempt source with delay } accepted
        (session.world.ends_trace program)
      rw [completed] at shows
      obtain ⟨-, other, same, size, -⟩ := shows
      refine ⟨other, same, size.symm.trans ?_⟩
      simp [Attempt.outcome, Attempt.settled, Attempt.behind]
  | aborted accepted => cases completed
  | refused refused => cases completed

/-- When all steps that were left have been made, the chapter is the finished one but for
its outcome. -/
theorem finish_eq (stands : Stands session chapter attempt) (untrapped : monitor.trap? = none)
    (outcome : Outcome) :
    chapter.finish session outcome =
      { chapter.present (fun _ => false) (attempt.playOut monitor).steps with
        outcome? := some outcome } := by
  have settled := (stands.play untrapped fun _ => false).1
  simp only [present, close, Bool.and_false, Bool.or_false] at settled ⊢
  cases cancelled : chapter.cancelled with
  | true =>
      have done := stands.run?_of_ended (stands.ended_of_cancelled cancelled)
      rw [Attempt.playOut, Attempt.play_of_isDone done]
      simp [Chapter.finish, cancelled]
  | false =>
      have all := settled.steps_of_ended rfl cancelled
      simp only [Chapter.finish, cancelled, ← all]
      rfl

/-- Making all steps that are left brings what the chapter tells of the end of the run. -/
theorem finish (stands : Stands session chapter attempt) (untrapped : monitor.trap? = none) :
    let finished := attempt.finish session.world monitor
    Hears session chapter (chapter.finish session finished.1) monitor finished.2 ∧
      (chapter.finish session finished.1).IsTold session := by
  obtain ⟨settled, hears⟩ := stands.play untrapped fun _ => false
  rw [Attempt.finish]
  dsimp only
  rw [stands.finish_eq untrapped]
  rw [← Attempt.playOut] at settled hears
  generalize attempt.playOut monitor = played at settled hears ⊢
  have ended : (chapter.present (fun _ => false) played.steps).ended = true := rfl
  generalize chapter.present (fun _ => false) played.steps = last at settled hears ended ⊢
  constructor
  · rw [Attempt.notify, settled.label_eq]
    exact hears.trans (.outcome settled.outcome?_eq _ _)
  · refine isTold_of_prefix settled.steps_prefix ?_
    rintro _ ⟨⟩ completed
    exact settled.actionCount_of_completed ended completed

theorem isTold (stands : Stands session chapter attempt) : chapter.IsTold session := by
  refine isTold_of_prefix stands.steps_prefix fun outcome finished => ?_
  rw [stands.outcome?_eq] at finished
  cases finished

end Stands

/-- A source that is started makes the beginning of a chapter. -/
theorem stands_start (idle : session.running = false) (source : String) (monitor : Monitor) :
    ∃ attempt, session.start source monitor =
        ⟨some attempt, { session with running := true },
          monitor.recordAll (some ((start session source).label session))
            ((start session source).events session)⟩ ∧
      ∀ delay, Stands session (start session source) { attempt with delay } := by
  cases read : (session.parsed source).program? with
  | none =>
      refine ⟨session.refusedAttempt source, ?_, fun delay => ?_⟩
      · rw [Session.start_of_none idle read]
        simp [start, events, opening, read]
      · rw [start, read]
        exact .refused read
  | some program =>
      refine ⟨(session.readAttempt source).underWay session.world []
        (.start program session.world), ?_, fun delay => ?_⟩
      · simp only [start, events, opening, read, Option.map_some, Option.toList_some,
          Option.map_none, Option.toList_none, List.flatMap_nil, List.append_nil]
        unfold Session.parsed at read
        rw [Session.start, if_neg (by simp [idle])]
        simp only [Session.prepare, read, Attempt.notify, Monitor.record_eq]
        rfl
      · rw [start, read]
        have stands : Stands session ⟨source, [], false, false, none⟩
            (Attempt.underWay { session.readAttempt source with delay } session.world []
              (.start program session.world)) :=
          .underWay read (Nat.zero_le _) (Run.hasMade_start program session.world)
        exact stands

end Chapter

end Rocket

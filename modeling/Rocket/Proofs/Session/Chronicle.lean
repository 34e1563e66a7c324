import Rocket.Proofs.Session.Chapter

/-!
# Chronicles

The chronicle of a session is written from what it was asked and what it answered, with no
look at the observer: a chapter for each run, and the number of runs that were refused.
The observer hears what the chronicle tells. Under the names of runs it hears the chapters,
one after the other, and besides them one warning for each refusal.
-/

namespace Rocket

namespace Monitor

/-- What was heard of runs, each under its name. -/
def ofRuns (monitor : Monitor) : List Notice :=
  monitor.notices.toList.filter (·.label?.isSome)

/-- What was heard under no name. -/
def unnamed (monitor : Monitor) : List Notice :=
  monitor.notices.toList.filter (·.label?.isNone)

variable {monitor : Monitor} {label : String}

@[simp]
theorem ofRuns_recordAll (events : List Event) :
    (monitor.recordAll (some label) events).ofRuns =
      monitor.ofRuns ++ events.map (⟨·, some label⟩) := by
  simp [ofRuns, recordAll, List.filter_map, Function.comp_def]

@[simp]
theorem unnamed_recordAll (events : List Event) :
    (monitor.recordAll (some label) events).unnamed = monitor.unnamed := by
  simp [unnamed, recordAll]

@[simp]
theorem ofRuns_record_none (event : Event) :
    (monitor.record none event).ofRuns = monitor.ofRuns := by
  simp [ofRuns, record]

@[simp]
theorem unnamed_record_none (event : Event) :
    (monitor.record none event).unnamed = monitor.unnamed ++ [⟨event, none⟩] := by
  simp [unnamed, record]

end Monitor

/-- The runs of a session, and how often one was refused. -/
structure Chronicle where
  /-- The chapters of runs that were finished or dropped. -/
  closed : List Chapter
  /-- The chapter of the run that is alive. -/
  current? : Option Chapter
  refusals : Nat

namespace Chronicle

def blank : Chronicle :=
  ⟨[], none, 0⟩

/-- All chapters, in the order in which their runs were started. -/
def chapters (story : Chronicle) : List Chapter :=
  story.closed ++ story.current?.toList

/-- Go on with the current chapter. -/
def goOn (story : Chronicle) (f : Chapter → Chapter) : Chronicle :=
  { story with current? := story.current?.map f }

/-- Bring the current chapter to its end. -/
def conclude (story : Chronicle) (f : Chapter → Chapter) : Chronicle :=
  { story with closed := story.closed ++ (story.current?.map f).toList, current? := none }

/-- The chronicle behind a request to a session and the answer to it. -/
def after (session : Session) (story : Chronicle) : Console.Request → Answer → Chronicle
  | .action (.start source _), .started true =>
      { story with current? := some (.start session source) }
  | .action (.run source), .outcome (some outcome) =>
      { story with
        closed := story.closed ++ [(Chapter.start session source).finish session outcome] }
  | .action (.start _ _), .started false | .action (.run _), .outcome none =>
      { story with refusals := story.refusals + 1 }
  | .action (.onAttempt (.next _)), .pulled steps => story.goOn (·.deliverAll steps)
  | .action (.onAttempt (.play stopAfter)), .played shown =>
      story.goOn (·.present (Console.stopsAfter stopAfter) shown)
  | .play stop, .played shown => story.goOn (·.present stop shown)
  | .action (.onAttempt .cancel), .done => story.goOn .cancel
  | .action (.onAttempt .finish), .outcome (some outcome) =>
      story.conclude (·.finish session outcome)
  | .action (.onAttempt .drop), .done => story.conclude id
  | _, _ => story

/-- The chronicle of some requests and the answers to them. -/
def ofAnswers (session : Session) (requests : List Console.Request) (answers : List Answer) :
    Chronicle :=
  (requests.zip answers).foldl (fun story (request, answer) => story.after session request answer)
    blank

/-- Whether a chronicle tells how a console stands and what its observer has heard. -/
structure Tells (session : Session) (story : Chronicle) (console : Console) : Prop where
  untrapped : console.monitor.trap? = none
  session_eq : console.session = { session with running := story.current?.isSome }
  stands : Option.Rel (Chapter.Stands session) story.current? console.attempt?
  told : ∀ chapter ∈ story.closed, chapter.IsTold session
  ofRuns : console.monitor.ofRuns = story.chapters.flatMap (Chapter.notices session)
  unnamed : console.monitor.unnamed = List.replicate story.refusals ⟨.runRefused, none⟩

variable {session held : Session} {story : Chronicle} {console : Console} {closed : List Chapter}
variable {chapter later : Chapter} {attempt attempt' : Attempt} {monitor watching : Monitor}
variable {refusals : Nat} {attempt? : Option Attempt}

/-- What is heard of the current run continues what was heard of all runs. -/
theorem ofRuns_of_hears (hears : Chapter.Hears session chapter later monitor watching)
    (before : monitor.ofRuns = (closed ++ [chapter]).flatMap (Chapter.notices session)) :
    watching.ofRuns = (closed ++ [later]).flatMap (Chapter.notices session) ∧
      watching.unnamed = monitor.unnamed := by
  obtain ⟨source, news, told, rfl⟩ := hears
  refine ⟨?_, Monitor.unnamed_recordAll news⟩
  rw [Monitor.ofRuns_recordAll, before]
  simp only [List.flatMap_append, List.flatMap_singleton, Chapter.notices, told, Chapter.label,
    source, List.map_append, List.append_assoc]

/-- Going on with a run, the chronicle tells what is heard. -/
theorem Tells.goOn
    (tells : Tells session ⟨closed, some chapter, refusals⟩ ⟨held, attempt?, monitor⟩)
    (stands : Chapter.Stands session later attempt')
    (hears : Chapter.Hears session chapter later monitor watching) :
    Tells session ⟨closed, some later, refusals⟩ ⟨held, some attempt', watching⟩ := by
  obtain ⟨untrapped, session_eq, -, told, ofRuns, unnamed⟩ := tells
  obtain ⟨ofRuns', unnamed'⟩ := ofRuns_of_hears hears ofRuns
  exact ⟨hears.trap?.trans untrapped, session_eq, .some stands, told, ofRuns',
    unnamed'.trans unnamed⟩

/-- At the end of a run, the chronicle tells what is heard. -/
theorem Tells.conclude
    (tells : Tells session ⟨closed, some chapter, refusals⟩ ⟨held, attempt?, monitor⟩)
    (isTold : later.IsTold session)
    (hears : Chapter.Hears session chapter later monitor watching) :
    Tells session ⟨closed ++ [later], none, refusals⟩
      ⟨held.release, none, watching⟩ := by
  obtain ⟨untrapped, session_eq, -, told, ofRuns, unnamed⟩ := tells
  obtain ⟨ofRuns', unnamed'⟩ := ofRuns_of_hears hears ofRuns
  refine ⟨hears.trap?.trans untrapped, ?_, .none, ?_, ?_, unnamed'.trans unnamed⟩
  · rw [show held = { session with running := true } from session_eq]
    rfl
  · exact List.forall_mem_append.2 ⟨told, List.forall_mem_singleton.2 isTold⟩
  · simpa [chapters] using ofRuns'

/-- At the start of a run, the chronicle tells what is heard. -/
theorem Tells.start (idle : session.running = false)
    (tells : Tells session ⟨closed, none, refusals⟩ ⟨held, attempt?, monitor⟩)
    (source : String) :
    ∃ attempt watching, held.start source monitor =
        ⟨some attempt, { session with running := true }, watching⟩ ∧
      ∀ delay, Tells session ⟨closed, some (.start session source), refusals⟩
        ⟨{ session with running := true }, some { attempt with delay }, watching⟩ := by
  obtain ⟨untrapped, session_eq, -, told, ofRuns, unnamed⟩ := tells
  have same : held = session := by
    rw [show held = { session with running := false } from session_eq, ← idle]
  obtain ⟨attempt, started, stands⟩ := Chapter.stands_start idle source monitor
  rw [same]
  refine ⟨attempt, _, started, fun delay => ⟨untrapped, rfl, .some (stands delay), told, ?_, ?_⟩⟩
  · rw [Monitor.ofRuns_recordAll, ofRuns]
    simp [chapters, Chapter.notices]
  · rw [Monitor.unnamed_recordAll]
    exact unnamed

/-- A run that is refused is told by a notice under no name, and by nothing else. -/
theorem Tells.refuse (tells : Tells session story console) :
    Tells session { story with refusals := story.refusals + 1 }
      { console with monitor := console.monitor.record none .runRefused } := by
  obtain ⟨untrapped, session_eq, stands, told, ofRuns, unnamed⟩ := tells
  refine ⟨untrapped, session_eq, stands, told, ?_, ?_⟩
  · rw [Monitor.ofRuns_record_none]
    exact ofRuns
  · rw [Monitor.unnamed_record_none, unnamed, List.replicate_succ']

/-- Whatever is done with the attempt under way, the chronicle goes on to tell what is
heard. -/
theorem Tells.onAttempt
    (tells : Tells session ⟨closed, some chapter, refusals⟩
      ⟨{ session with running := true }, some attempt, monitor⟩) (action : AttemptAction) :
    let answered :=
      Console.onAttempt { session with running := true } attempt monitor action
    Tells session (after session ⟨closed, some chapter, refusals⟩ (.action (.onAttempt action))
      answered.1) answered.2 := by
  have untrapped := tells.untrapped
  obtain ⟨stands⟩ := tells.stands
  cases action with
  | next count =>
      obtain ⟨later, hears⟩ := stands.pull untrapped count
      exact tells.goOn later hears
  | play stopAfter =>
      obtain ⟨later, hears⟩ := stands.play untrapped (Console.stopsAfter stopAfter)
      exact tells.goOn later hears
  | cancel =>
      obtain ⟨later, hears⟩ := stands.cancel monitor
      exact tells.goOn later hears
  | board => exact tells
  | findings => exact tells
  | finish =>
      obtain ⟨hears, isTold⟩ := stands.finish untrapped
      exact tells.conclude isTold hears
  | drop => exact tells.conclude stands.isTold (.silent rfl rfl)

/-- A source that is started while no run is alive makes a chapter, and a refusal otherwise. -/
theorem Tells.answer_start (idle : session.running = false) (tells : Tells session story console)
    (source : String) (delay? : Option Nat) :
    let answered := console.start source delay?
    Tells session (story.after session (.action (.start source delay?)) answered.1)
      answered.2 := by
  obtain ⟨held, attempt?, monitor⟩ := console
  obtain ⟨closed, current?, refusals⟩ := story
  cases current? with
  | none =>
      obtain ⟨attempt, watching, started, begun⟩ := tells.start idle source
      rw [Console.start, started]
      exact begun _
  | some chapter =>
      have running : held.running = true := congrArg Session.running tells.session_eq
      rw [Console.start, Session.start_of_running running]
      exact tells.refuse

/-- A source that is run while no other run is alive makes a closed chapter, and a refusal
otherwise. -/
theorem Tells.answer_run (idle : session.running = false) (tells : Tells session story console)
    (source : String) :
    let answered := console.run source
    Tells session (story.after session (.action (.run source)) answered.1) answered.2 := by
  obtain ⟨held, attempt?, monitor⟩ := console
  obtain ⟨closed, current?, refusals⟩ := story
  cases current? with
  | none =>
      obtain ⟨attempt, watching, started, begun⟩ := tells.start idle source
      have begun := begun attempt.delay
      obtain ⟨stands⟩ := begun.stands
      obtain ⟨hears, isTold⟩ := stands.finish begun.untrapped
      have none : attempt? = .none := by
        cases tells.stands
        rfl
      rw [Console.run, Session.run, started, none]
      exact begun.conclude isTold hears
  | some chapter =>
      have running : held.running = true := congrArg Session.running tells.session_eq
      rw [Console.run, Session.run, Session.start_of_running running]
      exact tells.refuse

/-- Whatever is asked, the chronicle goes on to tell what is heard. -/
theorem Tells.answer (idle : session.running = false) (tells : Tells session story console)
    (request : Console.Request) :
    Tells session (story.after session request (console.answer request).1)
      (console.answer request).2 := by
  match request with
  | .action (.run source) => exact tells.answer_run idle source
  | .action (.start source delay?) => exact tells.answer_start idle source delay?
  | .action .info => exact tells
  | .action (.onAttempt action) =>
      obtain ⟨held, attempt?, monitor⟩ := console
      obtain ⟨closed, current?, refusals⟩ := story
      have same := tells.session_eq
      cases tells.stands with
      | none => cases action <;> exact tells
      | some stands =>
          obtain rfl : held = { session with running := true } := same
          exact tells.onAttempt action
  | .play stop =>
      obtain ⟨held, attempt?, monitor⟩ := console
      obtain ⟨closed, current?, refusals⟩ := story
      cases tells.stands with
      | none => exact tells
      | some stands =>
          obtain ⟨later, hears⟩ := stands.play tells.untrapped stop
          exact tells.goOn later hears

/-- The chronicle of what was asked and answered tells what was heard. -/
theorem Tells.answerAll (idle : session.running = false) (tells : Tells session story console)
    (requests : List Console.Request) :
    Tells session
      ((requests.zip (console.answerAll requests).1).foldl
        (fun story (request, answer) => story.after session request answer) story)
      (console.answerAll requests).2 := by
  induction requests generalizing story console with
  | nil => exact tells
  | cons request rest ih => exact ih (tells.answer idle request)

/-- Every chapter of the chronicle tells of the steps that its program makes. -/
theorem Tells.isTold (tells : Tells session story console) :
    ∀ chapter ∈ story.chapters, chapter.IsTold session := by
  intro chapter member
  obtain before | current := List.mem_append.1 member
  · exact tells.told chapter before
  · obtain ⟨closed, current?, refusals⟩ := story
    obtain ⟨held, attempt?, monitor⟩ := console
    cases tells.stands with
    | none => cases current
    | some stands =>
        obtain rfl := List.mem_singleton.1 current
        exact stands.isTold

theorem tells_blank (idle : session.running = false) :
    Tells session blank ⟨session, none, .passive⟩ where
  untrapped := rfl
  session_eq := by
    change session = { session with running := false }
    rw [← idle]
  stands := .none
  told := nofun
  ofRuns := rfl
  unnamed := rfl

end Chronicle

/-- Whether an answer says that a run was refused. -/
def Answer.isRefusal : Answer → Bool
  | .started false | .outcome none => true
  | _ => false

/-- A run that is refused is reported by one notice, under no name. -/
theorem Console.notices_of_isRefusal {console : Console} {request : Console.Request}
    (refused : (console.answer request).1.isRefusal = true) :
    (console.answer request).2.monitor.notices =
      console.monitor.notices.push ⟨.runRefused, none⟩ := by
  obtain ⟨session, attempt?, monitor⟩ := console
  match request with
  | .action (.run source) =>
      cases running : session.running with
      | true =>
          simp only [answer, perform, run, Session.run, Session.start_of_running running]
          rfl
      | false =>
          obtain ⟨attempt, started, -⟩ := Chapter.stands_start running source monitor
          simp only [answer, perform, run, Session.run, started, Answer.isRefusal] at refused
          cases refused
  | .action (.start source delay?) =>
      cases running : session.running with
      | true =>
          simp only [answer, perform, start, Session.start_of_running running]
          rfl
      | false =>
          obtain ⟨attempt, started, -⟩ := Chapter.stands_start running source monitor
          simp only [answer, perform, start, started, Answer.isRefusal] at refused
          cases refused
  | .action .info => cases refused
  | .action (.onAttempt action) =>
      cases attempt? with
      | none => cases refused
      | some attempt => cases action <;> cases refused
  | .play stop => cases attempt? <;> cases refused

namespace Session

variable {session : Session} {level : Level}

/-- What is heard of a session that nobody traps is what happened. Under the names of runs
it is the chapters of the chronicle in their order, each with the steps that its program
makes, and besides that one warning for each run that was refused. -/
theorem events_tell_what_happened (valid : ofLevel level = .ok session)
    (requests : List Console.Request) :
    let answered := Console.answerAll ⟨session, none, .passive⟩ requests
    let story := Chronicle.ofAnswers session requests answered.1
    answered.2.monitor.ofRuns = story.chapters.flatMap (Chapter.notices session) ∧
      (∀ chapter ∈ story.chapters, chapter.IsTold session) ∧
      answered.2.monitor.unnamed = List.replicate story.refusals ⟨.runRefused, none⟩ ∧
      Event.importance .runRefused = .warn ∧
      ∀ request, (answered.2.answer request).1.isRefusal = true →
        (answered.2.answer request).2.monitor.notices =
          answered.2.monitor.notices.push ⟨.runRefused, none⟩ := by
  obtain ⟨idle, -⟩ := running_of_ofLevel valid
  have tells := (Chronicle.tells_blank idle).answerAll idle requests
  refine ⟨tells.ofRuns, ?_, tells.unnamed, rfl, fun request => Console.notices_of_isRefusal⟩
  exact tells.isTold

/-- A run is pulled once and cancelled in the reference level, while another one is asked
for in vain. -/
theorem events_tell_what_happened_reference :
    let requests : List Console.Request :=
      [.action (.start "move();" none), .action (.onAttempt (.next 1)),
        .action (.run "turnLeft();"), .action (.onAttempt .cancel), .action (.onAttempt .finish)]
    let answered := Console.answerAll ⟨reference, none, .passive⟩ requests
    ofLevel .reference = .ok .reference ∧
      answered.2.monitor.ofRuns.map (·.event) =
        [.programParsed 1 1 0, .stepMade 0 1 (.moved ⟨0, 4⟩), .runCancelled 1,
          .runFinished .aborted false 1] ∧
      answered.2.monitor.unnamed = [⟨.runRefused, none⟩] := by
  intro requests answered
  have valid : ofLevel .reference = .ok .reference := rfl
  obtain ⟨ofRuns, -, unnamed, -⟩ := events_tell_what_happened valid requests
  refine ⟨valid, ?_, ?_⟩
  · rw [ofRuns]
    decide +kernel
  · rw [unnamed]
    decide +kernel

end Session

end Rocket

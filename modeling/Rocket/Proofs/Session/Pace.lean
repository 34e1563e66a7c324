import Rocket.CommandLine.Reply
import Rocket.Page
import Rocket.Proofs.Run.Ending
import Rocket.Proofs.Session.Driving

/-!
# One run at any pace

A source that is started in a session has one outcome, whether its attempt is driven step
by step, shown to a viewer or run to its end at once, and whether this is done by the
owner of the session, by the page or by the command line tool.
-/

namespace Rocket

theorem Monitor.untrapped_passive : Monitor.passive.trap? = none := rfl

namespace Session

/-- What a session reads a source as. -/
def parsed (session : Session) (source : String) : Parsed :=
  .ofSource (.ofText Source.defaultName source) session.level.mode

/-- The steps that the program of a source makes; none if it is refused. -/
def stepsOf (session : Session) (source : String) : List Step :=
  match (session.parsed source).program? with
  | none => []
  | some program => (RunReport.ofProgram program session.world).steps.toList

/-- Start a source and drive its attempt; nothing if another one is under way. -/
def drive (session : Session) (source : String) (monitor : Monitor) (drivings : List Driving) :
    Option Driven :=
  let started := session.start source monitor
  started.attempt?.map fun attempt => (Driven.start attempt started.monitor).actAll drivings

/-- An attempt at a source that was read, before anything comes of it. -/
def readAttempt (session : Session) (source : String) : Attempt :=
  { session.newAttempt source with findings := (session.parsed source).findings }

/-- The attempt at a source that is refused. -/
def refusedAttempt (session : Session) (source : String) : Attempt :=
  { session.readAttempt source with
    log := refusalLog (session.parsed source).findings
    status? := some .syntaxErrors }

/-- The outcome of a source whose run is not cancelled. -/
def outcomeOf (session : Session) (source : String) : Outcome :=
  let attempt := match (session.parsed source).program? with
    | none => session.refusedAttempt source
    | some program =>
        (session.readAttempt source).settled session.world (session.world.trace program)
  attempt.outcome session.world

variable {session : Session} {source : String} {program : Program} {monitor : Monitor}

/-- A session of a level that can be played has nothing under way. -/
theorem running_of_ofLevel {level : Level} (valid : ofLevel level = .ok session) :
    session.running = false ∧ session.level = level := by
  unfold ofLevel at valid
  cases found : level.world with
  | error error => simp [found, Except.map] at valid
  | ok world =>
      rw [found] at valid
      obtain rfl := Except.ok.inj valid
      exact ⟨rfl, rfl⟩

theorem stepsOf_of_some (accepted : (session.parsed source).program? = some program) :
    session.stepsOf source = session.world.trace program := by
  rw [stepsOf, accepted]
  dsimp only
  rw [RunReport.ofProgram_eq]

theorem stepsOf_of_none (refused : (session.parsed source).program? = none) :
    session.stepsOf source = [] := by
  rw [stepsOf, refused]

theorem outcomeOf_of_some (accepted : (session.parsed source).program? = some program) :
    session.outcomeOf source =
      ((session.readAttempt source).settled session.world
        (session.world.trace program)).outcome session.world := by
  rw [outcomeOf, accepted]

theorem outcomeOf_of_none (refused : (session.parsed source).program? = none) :
    session.outcomeOf source = (session.refusedAttempt source).outcome session.world := by
  rw [outcomeOf, refused]

/-- A program that is accepted is ready to run. -/
theorem start_of_some (idle : session.running = false)
    (accepted : (session.parsed source).program? = some program) (monitor : Monitor) :
    ∃ watching, session.start source monitor =
        { attempt? := some ((session.readAttempt source).underWay session.world []
            (.start program session.world))
          session := { session with running := true }
          monitor := watching } ∧
      watching.trap? = monitor.trap? := by
  refine ⟨(session.readAttempt source).notify monitor
    (.programParsed program.statements.length program.actionCount
      (session.parsed source).findings.totalWarnings), ?_, rfl⟩
  unfold parsed at accepted
  rw [start, if_neg (by simp [idle])]
  simp only [prepare, accepted]
  rfl

/-- A program that is refused has ended before its run. -/
theorem start_of_none (idle : session.running = false)
    (refused : (session.parsed source).program? = none) (monitor : Monitor) :
    session.start source monitor =
      { attempt? := some (session.refusedAttempt source)
        session := { session with running := true }
        monitor } := by
  unfold parsed at refused
  rw [start, if_neg (by simp [idle])]
  simp only [prepare, refused]
  rfl

/-- Driving a source is driving the attempt at it. -/
theorem drive_of_start {after : Session} {attempt : Attempt} {watching : Monitor}
    (started : session.start source monitor = ⟨some attempt, after, watching⟩)
    (drivings : List Driving) :
    session.drive source monitor drivings =
      some ((Driven.start attempt watching).actAll drivings) := by
  rw [drive, started]
  rfl

/-- How an attempt that was started can stand: it follows the trace of its program, or
the program was refused and there is nothing to drive. -/
inductive Reaches (session : Session) (source : String) (driven : Driven) : Prop
  | accepted {program : Program} (accepted : (session.parsed source).program? = some program)
      (follows : driven.Follows (session.readAttempt source) program session.world)
  | refused (refused : (session.parsed source).program? = none) (steps : driven.steps = [])
      (attempt : driven.attempt = session.refusedAttempt source)

theorem Reaches.actAll {driven : Driven} (h : session.Reaches source driven)
    (drivings : List Driving) : session.Reaches source (driven.actAll drivings) := by
  cases h with
  | accepted accepted follows => exact .accepted accepted (follows.actAll drivings)
  | refused refused steps attempt =>
      have done : driven.attempt.run? = none := by
        rw [attempt]
        rfl
      obtain ⟨stopped, stays⟩ := Driven.actAll_of_isDone done drivings
      rw [stays]
      exact .refused refused steps attempt

/-- A session with nothing under way starts every source. -/
theorem start_reaches (idle : session.running = false) (source : String)
    (untrapped : monitor.trap? = none) :
    ∃ attempt watching, session.start source monitor =
        { attempt? := some attempt
          session := { session with running := true }
          monitor := watching } ∧
      session.Reaches source (.start attempt watching) ∧ watching.trap? = none := by
  cases found : (session.parsed source).program? with
  | none =>
      exact ⟨_, _, start_of_none idle found monitor, .refused found rfl rfl, untrapped⟩
  | some program =>
      obtain ⟨watching, started, same⟩ := start_of_some idle found monitor
      have still := same.trans untrapped
      exact ⟨_, _, started, .accepted found (Driven.follows_start _ _ _ still), still⟩

/-- However its attempt is driven, a source that was started stands as its steps say. -/
theorem drive_reaches (idle : session.running = false) (source : String)
    (untrapped : monitor.trap? = none) (drivings : List Driving) :
    ∃ driven, session.drive source monitor drivings = some driven ∧
      session.Reaches source driven := by
  obtain ⟨attempt, watching, started, reaches, -⟩ := start_reaches idle source untrapped
  exact ⟨_, drive_of_start started drivings, reaches.actAll drivings⟩

variable {driven : Driven}

theorem Reaches.watchedBy (h : session.Reaches source driven) (untrapped : monitor.trap? = none) :
    session.Reaches source { driven with monitor } := by
  cases h with
  | accepted accepted follows => exact .accepted accepted (follows.watchedBy untrapped)
  | refused refused steps attempt => exact .refused refused steps attempt

theorem Reaches.steps_prefix (h : session.Reaches source driven) :
    driven.steps <+: session.stepsOf source := by
  cases h with
  | accepted accepted follows =>
      rw [stepsOf_of_some accepted]
      exact follows.steps_prefix
  | refused refused steps attempt =>
      rw [steps]
      exact List.nil_prefix

theorem Reaches.agent_eq (h : session.Reaches source driven) :
    driven.attempt.agent = (session.world.viewAfter driven.steps).agent := by
  cases h with
  | accepted accepted follows => exact follows.attempt_eq.1
  | refused refused steps attempt =>
      rw [steps, attempt]
      rfl

theorem Reaches.finish_of_not_stopped (h : session.Reaches source driven)
    (going : driven.stopped = false) : driven.finish session.world = session.outcomeOf source := by
  cases h with
  | accepted accepted follows =>
      rw [outcomeOf_of_some accepted]
      exact follows.finish_of_not_stopped going
  | refused refused steps attempt =>
      have done : driven.attempt.run? = none := by
        rw [attempt]
        rfl
      rw [outcomeOf_of_none refused, Driven.finish_of_isDone done, attempt]

/-- Showing all steps delivers those of the program, and settles the outcome. -/
theorem Reaches.playOut {attempt : Attempt} (h : session.Reaches source (.start attempt monitor)) :
    (attempt.playOut monitor).steps = (session.stepsOf source).toArray ∧
      (attempt.playOut monitor).attempt.run? = none ∧
      (attempt.playOut monitor).attempt.outcome session.world = session.outcomeOf source := by
  cases h with
  | accepted accepted follows =>
      obtain ⟨steps, settled⟩ := follows.playOut rfl
      have all : (attempt.playOut monitor).steps.toList =
          session.world.trace _ := steps
      refine ⟨?_, ?_, ?_⟩
      · rw [stepsOf_of_some accepted, ← all]
      · exact congrArg Attempt.run? settled
      · rw [outcomeOf_of_some accepted]
        exact congrArg (Attempt.outcome · session.world) settled
  | refused refused steps same =>
      have done : attempt.run? = none := congrArg Attempt.run? same
      rw [Attempt.playOut, Attempt.play_of_isDone done, stepsOf_of_none refused,
        outcomeOf_of_none refused]
      exact ⟨rfl, done, congrArg (Attempt.outcome · session.world) same⟩

/-- Running a source to its end has the outcome of its steps. -/
theorem outcome?_run (idle : session.running = false) (source : String)
    (untrapped : monitor.trap? = none) :
    (session.run source monitor).outcome? = some (session.outcomeOf source) := by
  obtain ⟨attempt, watching, started, reaches, -⟩ := start_reaches idle source untrapped
  have finish := reaches.finish_of_not_stopped rfl
  rw [run, started]
  exact congrArg some finish

end Session

/-! ## The page and the command line tool -/

section FrontEnds

variable {level : Level} {session : Session}

/-- The page makes all steps of a source. -/
theorem Page.run_eq {document : String} (read : Page.level document = .ok level)
    (valid : Session.ofLevel level = .ok session) (source : String) :
    Page.run source document =
      .ok (some ⟨session.outcomeOf source, (session.stepsOf source).toArray⟩) := by
  obtain ⟨idle, -⟩ := Session.running_of_ofLevel valid
  obtain ⟨attempt, watching, started, reaches, -⟩ :=
    Session.start_reaches idle source Monitor.untrapped_passive
  obtain ⟨steps, done, outcome⟩ := reaches.playOut
  have finish : ((attempt.playOut watching).attempt.finish session.world
      (attempt.playOut watching).monitor).1 = session.outcomeOf source := by
    rw [Attempt.finish, Attempt.playOut, Attempt.play_of_isDone done]
    exact outcome
  rw [Page.run, read]
  simp only [bind, Except.bind, valid, started, ← finish, ← steps]
  rfl

/-- The tool says by its exit code whether a run was won, in either form of its answer. -/
theorem Reply.exists_run (valid : Session.ofLevel level = .ok session) (source : String)
    (json : Bool) :
    ∃ reply, Reply.run level source json = .ok reply ∧
      reply.exit = Reply.ofWon (session.outcomeOf source).won := by
  obtain ⟨idle, -⟩ := Session.running_of_ofLevel valid
  cases json with
  | true =>
      have ran := Session.outcome?_run idle source Monitor.untrapped_passive
      simp only [Reply.run, Reply.mapError_invalidLevel_of_ok valid, bind, Except.bind, ran]
      exact ⟨_, rfl, rfl⟩
  | false =>
      obtain ⟨attempt, watching, started, reaches, -⟩ :=
        Session.start_reaches idle source Monitor.untrapped_passive
      have shown : session.Reaches source (.start attempt .passive) := reaches.watchedBy rfl
      obtain ⟨-, done, outcome⟩ := shown.playOut
      simp only [Reply.run, Reply.mapError_invalidLevel_of_ok valid, bind, Except.bind, started]
      refine ⟨_, rfl, ?_⟩
      simp only [Reply.showAttempt, Attempt.finish]
      rw [Attempt.playOut, Attempt.play_of_isDone done, outcome]

/-- The exit code of the tool is that of success exactly if the run was won. -/
theorem Reply.exit_ofInvocation_run {files : Files} {file : String} {level? : Option String}
    {delay? : Option Nat} {strict : Bool} {described : Level} {source : String}
    (readLevel : Reply.readLevel files level? = .ok described)
    (adjusted : Reply.adjust described delay? strict = level) (readFile : files file = .ok source)
    (valid : Session.ofLevel level = .ok session) (json : Bool) :
    (Reply.ofInvocation files (.run file level? delay? strict json)).exit = Reply.success ↔
      (session.outcomeOf source).won = true := by
  obtain ⟨reply, ran, exit⟩ := Reply.exists_run valid source json
  have answer : Reply.ofInvocation files (.run file level? delay? strict json) = reply := by
    simp only [Reply.ofInvocation, readLevel, Reply.readFile_of_ok readFile, adjusted, ran, bind,
      Except.bind, Reply.ofResult]
  rw [answer, exit]
  cases (session.outcomeOf source).won <;> simp [Reply.ofWon, Reply.success, Reply.notWon]

end FrontEnds

/-! ## However a run is driven -/

/-- Whether a driven attempt shows a part of the run of a source. As long as it was not
stopped it finishes with the outcome of the source. If it was stopped while steps were
left, no step comes any more, and the outcome is that of a run that was cancelled. -/
structure Driven.IsFaithful (session : Session) (source : String) (outcome : Outcome)
    (driven : Driven) : Prop where
  steps : driven.steps <+: session.stepsOf source
  order : ∀ (i : Nat) (step : Step), driven.steps[i]? = some step → step.index = i
  agent : driven.attempt.agent =
    (driven.steps.getLast?.map (·.agent)).getD session.world.start
  log : (session.parsed source).program?.isSome = true →
    driven.attempt.log.toList = driven.steps.map (·.entry)
  finish : driven.stopped = false → driven.finish session.world = outcome
  cancelled : driven.stopped = true →
    driven.steps.length < (session.stepsOf source).length →
      (∀ drivings, (driven.actAll drivings).steps = driven.steps) ∧
        driven.finish session.world =
          { outcome with
            finalAgent := driven.attempt.agent
            log := (driven.steps.map (·.entry)).toArray
            won := false
            status := .aborted }

namespace Session

variable {session : Session} {source : String} {driven : Driven}

/-- The steps of a source are numbered in order. -/
theorem index_of_stepsOf {i : Nat} {step : Step}
    (h : (session.stepsOf source)[i]? = some step) : step.index = i := by
  cases found : (session.parsed source).program? with
  | none =>
      rw [stepsOf_of_none found] at h
      simp at h
  | some program =>
      rw [stepsOf_of_some found] at h
      exact (World.index_of_traceFrom h).trans (Nat.zero_add i)

/-- The outcome of a run that is cancelled before its last step. -/
theorem Reaches.cancelled (h : session.Reaches source driven) (stopped : driven.stopped = true)
    (short : driven.steps.length < (session.stepsOf source).length) :
    driven.attempt.run? = none ∧
      driven.attempt.outcome session.world =
        { session.outcomeOf source with
          finalAgent := driven.attempt.agent
          log := (driven.steps.map (·.entry)).toArray
          won := false
          status := .aborted } := by
  cases h with
  | accepted accepted follows =>
      rw [stepsOf_of_some accepted] at short
      rw [follows.attempt_of_stopped stopped short, outcomeOf_of_some accepted]
      exact ⟨rfl, rfl⟩
  | refused refused steps attempt =>
      rw [stepsOf_of_none refused] at short
      exact absurd short (Nat.not_lt_zero _)

theorem Reaches.isFaithful (h : session.Reaches source driven) :
    driven.IsFaithful session source (session.outcomeOf source) where
  steps := h.steps_prefix
  order := by
    intro i step found
    obtain ⟨rest, all⟩ := h.steps_prefix
    obtain ⟨inside, -⟩ := List.getElem?_eq_some_iff.1 found
    apply index_of_stepsOf
    rwa [← all, List.getElem?_append_left inside]
  agent := h.agent_eq
  log := by
    intro accepted
    cases h with
    | accepted _ follows => rw [follows.attempt_eq.2]
    | refused refused _ _ =>
        rw [refused] at accepted
        cases accepted
  finish := h.finish_of_not_stopped
  cancelled := by
    intro stopped short
    obtain ⟨done, outcome⟩ := h.cancelled stopped short
    constructor
    · intro drivings
      obtain ⟨_, stays⟩ := Driven.actAll_of_isDone done drivings
      rw [stays]
    · rw [Driven.finish_of_isDone done, outcome]

/-- A run is the same however it is driven. A source has one outcome in a level: that of
running it to its end, and of every attempt that is driven without being stopped, each
of which delivers the steps of the program in order. The page answers with this outcome
and all the steps, and the exit code of the tool says whether it was won. -/
theorem run_at_any_pace {level : Level} (valid : ofLevel level = .ok session) (source : String) :
    ∃ outcome,
      (∀ monitor, monitor.trap? = none → (session.run source monitor).outcome? = some outcome) ∧
      (∀ monitor, monitor.trap? = none → ∀ drivings, ∃ driven,
        session.drive source monitor drivings = some driven ∧
          driven.IsFaithful session source outcome) ∧
      (∀ document, Page.level document = .ok level →
        Page.run source document = .ok (some ⟨outcome, (session.stepsOf source).toArray⟩) ∧
          Page.runAnswer source document =
            .ofMembers
              [("verdict", outcome.verdict.toJson), ("outcome", outcome.toJson),
                ("steps", .ofList Step.toJson (session.stepsOf source))]) ∧
      ∀ files file level? delay? strict json described,
        Reply.readLevel files level? = .ok described →
        Reply.adjust described delay? strict = level → files file = .ok source →
          ((Reply.ofInvocation files (.run file level? delay? strict json)).exit =
              Reply.success ↔ outcome.won = true) := by
  obtain ⟨idle, -⟩ := running_of_ofLevel valid
  refine ⟨session.outcomeOf source, ?_, ?_, ?_, ?_⟩
  · intro monitor untrapped
    exact outcome?_run idle source untrapped
  · intro monitor untrapped drivings
    obtain ⟨driven, drove, reaches⟩ := drive_reaches idle source untrapped drivings
    exact ⟨driven, drove, reaches.isFaithful⟩
  · intro document read
    have ran := Page.run_eq read valid source
    refine ⟨ran, ?_⟩
    rw [Page.runAnswer, ran]
  · intro files file level? delay? strict json described readLevel adjusted readFile
    exact Reply.exit_ofInvocation_run readLevel adjusted readFile valid json

/-- In the reference level, which a blank document stands for as well, the page and the
tool agree on a source with one move. -/
theorem run_at_any_pace_reference :
    ofLevel .reference = .ok .reference ∧ ∃ outcome,
      (reference.run "move();" .passive).outcome? = some outcome ∧
      Page.run "move();" "" =
        .ok (some ⟨outcome, (reference.stepsOf "move();").toArray⟩) ∧
      ((Reply.ofInvocation (fun _ => .ok "move();")
          (.run "star.pilot" none none false true)).exit = Reply.success ↔
        outcome.won = true) := by
  have valid : ofLevel .reference = .ok .reference := rfl
  have blank : Page.level "" = .ok .reference := rfl
  obtain ⟨outcome, ran, -, page, tool⟩ := run_at_any_pace valid "move();"
  refine ⟨valid, outcome, ran .passive rfl, (page "" blank).1, ?_⟩
  exact tool (fun _ => .ok "move();") "star.pilot" none none false true .reference rfl rfl rfl

end Session

end Rocket

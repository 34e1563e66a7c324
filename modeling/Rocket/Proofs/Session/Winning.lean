import Rocket.Proofs.Reading.Printed
import Rocket.Proofs.Run.Route
import Rocket.Proofs.Session.Containment
import Rocket.Proofs.Session.Coherence
import Rocket.Proofs.Session.Safety

/-!
# Winning

Every level that can be played can be won if its budget allows for the distance to the target
and three turns, and it is never won with fewer moves than the distance.

## Implementation notes

That a level can be won is shown by a program, which is printed and read again. Its run does
not halt early, so it does not matter whether its observer has a trap. That moves are needed
is an invariant of attempts: the rocket is no farther from the start than the log tells of
moves. It is kept by breakdowns and cancellations as well.
-/

namespace Rocket

/-! ## Moves needed -/

namespace Attempt

/-- Whether the rocket of an attempt is on the board, no farther from the start than the log
tells of moves, and that of its run. -/
structure IsInReach (world : World) (attempt : Attempt) : Prop where
  inside : world.grid.contains attempt.agent.position = true
  moves : world.start.position.distance attempt.agent.position ≤
    attempt.log.countP (·.isMoved)
  run : ∀ run, attempt.run? = some run → run.world = world ∧ run.agent = attempt.agent

variable {world : World} {attempt : Attempt}

theorem IsInReach.deliver (reach : attempt.IsInReach world)
    (size : world.grid.size ≤ Level.maxGridSize) {run after : Run} {step : Step}
    (underWay : attempt.run? = some run) (next : run.next = .ok (some (step, after)))
    (monitor : Monitor) : (attempt.deliver step after monitor).attempt.IsInReach world := by
  obtain ⟨inside, moves, own⟩ := reach
  obtain ⟨rfl, agent⟩ := own run underWay
  rw [← agent] at inside moves
  have near := Run.distance_of_next size inside next run.world.start.position
  have inside' := (Run.Makes.step next (.rest after)).contains inside
  obtain ⟨same, -⟩ := Run.position_of_next next
  obtain ⟨-, p, line, behind, -, made⟩ := Run.exists_advance_of_next next
  have carried : step.agent = after.agent := by
    obtain ⟨rfl, rfl⟩ := Prod.mk.inj made
    rfl
  refine ⟨?_, ?_, ?_⟩
  · rw [← carried] at inside'
    exact inside'
  · rw [← carried] at near
    simp only [Attempt.deliver, Array.countP_push]
    omega
  · rintro _ ⟨⟩
    exact ⟨same, carried.symm⟩

/-- A breakdown leaves the rocket where it is. -/
theorem IsInReach.breakDown (reach : attempt.IsInReach world) (message : String)
    (monitor : Monitor) : (attempt.breakDown message monitor).attempt.IsInReach world where
  inside := reach.inside
  moves := by
    have entry : (LogEntry.executionError (Fault.text ⟨.execute, message⟩)).isMoved = false := rfl
    simpa [Attempt.breakDown, Attempt.recordFault, Array.countP_push, entry] using reach.moves
  run := nofun

theorem IsInReach.next (reach : attempt.IsInReach world)
    (size : world.grid.size ≤ Level.maxGridSize) (monitor : Monitor) :
    (attempt.next monitor).attempt.IsInReach world := by
  unfold Attempt.next
  split
  · exact reach
  next run underWay =>
    split
    next bad broken => exact reach.breakDown bad.text monitor
    next ended => exact ⟨reach.inside, reach.moves, nofun⟩
    next step after next =>
      split
      next going => exact reach.deliver size underWay next monitor
      next halt halted =>
        obtain ⟨watching, delivered⟩ | ⟨message, watching, broken⟩ :=
          attempt.deliverLast_cases step after halt monitor
        · rw [delivered]
          exact reach.deliver size underWay next watching
        · rw [broken]
          exact reach.breakDown message watching

theorem IsInReach.cancel (reach : attempt.IsInReach world) (monitor : Monitor) :
    (attempt.cancel monitor).1.IsInReach world := by
  unfold Attempt.cancel
  split
  · exact ⟨reach.inside, reach.moves, nofun⟩
  · exact reach

/-- On a board that is not too large, the rocket stays in reach. -/
theorem isKept_isInReach (size : world.grid.size ≤ Level.maxGridSize) :
    IsKept False (IsInReach world) where
  next := fun {_ monitor} reach _ => reach.next size monitor
  cancel := fun monitor reach => reach.cancel monitor
  delay := fun _ reach => ⟨reach.inside, reach.moves, reach.run⟩

/-- An attempt whose rocket is still at the start is in reach. -/
theorem isInReach_of_start (inside : world.grid.contains world.start.position = true)
    (agent : attempt.agent = world.start)
    (run : ∀ run, attempt.run? = some run → run.world = world ∧ run.agent = world.start) :
    attempt.IsInReach world where
  inside := by rwa [agent]
  moves := by
    rw [agent, Position.distance_self]
    exact Nat.zero_le _
  run := by rwa [agent]

/-- An outcome that is won tells of as many moves as the target is away from the start. -/
theorem IsInReach.distance_le_of_won (reach : attempt.IsInReach world)
    (won : (attempt.outcome world).won = true) :
    world.start.position.distance world.target ≤
      (attempt.outcome world).log.countP (·.isMoved) := by
  obtain ⟨-, there⟩ := (attempt.won_outcome world).1 won
  rw [← there]
  exact reach.moves

end Attempt

namespace Session

variable {session : Session}

/-- A source starts an attempt that is in reach, if the start is on the board. -/
theorem isInReach_of_start {source : String} {monitor : Monitor} {attempt : Attempt}
    (inside : session.world.grid.contains session.world.start.position = true)
    (started : (session.start source monitor).attempt? = some attempt) :
    attempt.IsInReach session.world := by
  cases running : session.running with
  | true =>
      rw [start_of_running running] at started
      cases started
  | false =>
      cases read : (session.parsed source).program? with
      | none =>
          rw [start_of_none running read] at started
          obtain rfl := Option.some.inj started
          exact Attempt.isInReach_of_start inside rfl nofun
      | some program =>
          obtain ⟨watching, same, -⟩ := start_of_some running read monitor
          rw [same] at started
          obtain rfl := Option.some.inj started
          refine Attempt.isInReach_of_start inside rfl ?_
          rintro _ ⟨⟩
          exact ⟨rfl, rfl⟩

/-- No session of a world tells of a win with too few moves. -/
theorem distance_le_of_won (playable : session.world.IsPlayable)
    (monitor : Monitor) (requests : List Console.Request) {outcome : Outcome}
    (told : .outcome (some outcome) ∈ (Console.answerAll ⟨session, none, monitor⟩ requests).1)
    (won : outcome.won = true) :
    session.world.start.position.distance session.world.target ≤
      outcome.log.countP (·.isMoved) := by
  obtain ⟨size, inside, -⟩ := playable
  have keeps : Console.Keeps False (Attempt.IsInReach session.world) session.world
      ⟨session, none, monitor⟩ := Console.keeps_of_none rfl False.elim
  obtain ⟨attempt, reach, rfl⟩ := keeps.answerAll (Attempt.isKept_isInReach size)
    (fun same started => by
      rw [← same] at inside ⊢
      exact isInReach_of_start inside started) requests _ told
  exact reach.distance_le_of_won won

end Session

/-! ## Programs that win -/

/-- A program unrolls to the actions of its commands. -/
theorem Program.fst_unrolled (program : Program) :
    program.unrolled.map Prod.fst = Command.allActions program.commands := by
  have each : ∀ statement : Statement,
      statement.actions.map Prod.fst = statement.command.actions := by
    intro statement
    rw [Statement.actions, List.map_map]
    exact List.map_id _
  simp only [unrolled, List.map_flatMap, each, Command.allActions, commands, List.flatMap_map]

/-- The program that takes the route to the target. -/
def World.routeProgram (world : World) : Program :=
  ⟨(Command.route world.start world.target).map (⟨·, .point 1 1⟩)⟩

theorem World.commands_routeProgram (world : World) :
    world.routeProgram.commands = Command.route world.start world.target := by
  rw [Program.commands, routeProgram, List.map_map]
  exact List.map_id _

/-- Whether an outcome tells of a run that was won, with nothing to report and no more than
some number of entries. -/
structure Outcome.IsCleanWin (entries : Nat) (outcome : Outcome) : Prop where
  status : outcome.status = .completed
  won : outcome.won = true
  log : outcome.log.size ≤ entries
  findings : outcome.findings = .empty

/-- What is within some number of entries is within any greater number. -/
theorem Outcome.IsCleanWin.mono {entries more : Nat} {outcome : Outcome}
    (win : outcome.IsCleanWin entries) (le : entries ≤ more) : outcome.IsCleanWin more :=
  ⟨win.status, win.won, win.log.trans le, win.findings⟩

namespace Session

variable {session : Session} {program : Program} {level : Level}

/-- A printed program is read as one with the same commands, and there is nothing to
report. -/
theorem parsed_text (session : Session) (program : Program) :
    ∃ read : Program, session.parsed program.text = ⟨some read, .empty⟩ ∧
      read.commands = program.commands := by
  refine ⟨_, Parsed.ofSource_of_clean (Program.remarks_text _ program) session.level.mode, ?_⟩
  rw [Program.kept_text, List.mapIdx_eq_zipIdx_map, Program.commands, List.map_map]
  exact List.zipIdx_map_fst 0 program.commands

/-- To run a source is to start it and not to drive it. -/
theorem outcome?_run_eq (session : Session) (source : String) (monitor : Monitor) :
    (session.run source monitor).outcome? =
      (session.drive source monitor []).map (·.finish session.world) := by
  have same := session.world_start source monitor
  unfold run drive
  generalize session.start source monitor = start at same ⊢
  obtain ⟨_ | attempt, after, watching⟩ := start
  · rfl
  · rw [← same]
    rfl

/-- A source that does not halt has its outcome under every observer. -/
theorem outcome?_run_of_quiet (idle : session.running = false) (source : String)
    (quiet : ∀ step ∈ session.stepsOf source, step.entry.halt? = none) (monitor : Monitor) :
    (session.run source monitor).outcome? = some (session.outcomeOf source) := by
  cases armed : monitor.trap? with
  | none => exact outcome?_run idle source armed
  | some payload =>
      obtain ⟨driven, free, drove, droveFree, contained⟩ := drive_isContained idle source armed []
      obtain ⟨-, -, finish⟩ := contained.unaffected quiet
      have ran := outcome?_run idle source Monitor.untrapped_passive
      rw [outcome?_run_eq, droveFree, Option.map_some, ← finish] at ran
      rw [outcome?_run_eq, drove, Option.map_some, ran]

/-- A program whose actions lead to the target within the budget wins, whatever its
observer. -/
theorem isCleanWin_of_leads (idle : session.running = false) {last : Agent}
    (leads : session.world.grid.Leads session.world.start
      (Command.allActions program.commands) last)
    (there : last.position = session.world.target)
    (allowed : (Command.allActions program.commands).length ≤ session.world.maxSteps)
    (monitor : Monitor) :
    ∃ outcome, (session.run program.text monitor).outcome? = some outcome ∧
      outcome.IsCleanWin (Command.allActions program.commands).length := by
  obtain ⟨read, parsed, same⟩ := session.parsed_text program
  have accepted : (session.parsed program.text).program? = some read := by rw [parsed]
  rw [← same, ← Program.fst_unrolled] at leads allowed ⊢
  rw [List.length_map] at allowed ⊢
  have within : 0 + read.unrolled.length ≤ session.world.maxSteps := by omega
  obtain ⟨goes, ends, all⟩ := World.traceFrom_of_leads leads within
  have quiet : ∀ step ∈ session.world.trace read, step.entry.halt? = none :=
    fun step member => LogEntry.halt?_of_not_isFailure (goes step member)
  have halt : (session.world.viewAfter (session.world.trace read)).halt? = none := by
    refine Option.bind_eq_none_iff.2 fun step final => ?_
    exact quiet step (List.mem_of_getLast? final)
  rw [← stepsOf_of_some accepted] at quiet
  refine ⟨_, outcome?_run_of_quiet idle program.text quiet monitor, ?_⟩
  have status : (session.outcomeOf program.text).status = .completed := by
    rw [outcomeOf_of_some accepted]
    exact congrArg Status.ofHalt halt
  constructor
  case status => exact status
  case won =>
    rw [outcomeOf_of_some accepted] at status ⊢
    refine (Attempt.won_outcome _ _).2 ⟨.inl status, ?_⟩
    rw [← there, ← ends]
    rfl
  case log =>
    rw [outcomeOf_of_some accepted, ← all]
    simp [Attempt.outcome, Attempt.settled, Attempt.behind, World.trace]
  case findings =>
    rw [outcomeOf_of_some accepted]
    exact congrArg Parsed.findings parsed

/-- In a world that can be played, the program that takes the route wins. -/
theorem isCleanWin_routeProgram (idle : session.running = false)
    (playable : session.world.IsPlayable)
    (allowed : session.world.start.position.distance session.world.target + 3 ≤
      session.world.maxSteps) (monitor : Monitor) :
    ∃ outcome, (session.run session.world.routeProgram.text monitor).outcome? = some outcome ∧
      outcome.IsCleanWin (session.world.start.position.distance session.world.target + 3) := by
  obtain ⟨size, start, target⟩ := playable
  obtain ⟨heading, leads⟩ := Grid.leads_route size start target
  have short := Grid.length_route_le size start target
  rw [← World.commands_routeProgram] at leads short
  obtain ⟨outcome, ran, win⟩ := isCleanWin_of_leads idle leads rfl (short.trans allowed) monitor
  exact ⟨outcome, ran, win.mono short⟩

/-- The mode of a level plays no part in its world. -/
theorem ofLevel_mode (valid : ofLevel level = .ok session) (mode : Mode) :
    ofLevel { level with mode } = .ok { session with level := { level with mode } } := by
  obtain ⟨idle, -⟩ := running_of_ofLevel valid
  have found := world_of_ofLevel valid
  have still : Level.world { level with mode } = level.world := rfl
  rw [ofLevel, still, found, idle]
  rfl

/-- A level that can be played can be won with a printed program, read in either mode, as
soon as the budget allows for the distance to the target and three turns. The log of the run
has no more entries than that, and there is nothing to report. Whatever is asked of a session
of the level, it tells of no win with fewer moves than the distance. -/
theorem won_within_three_turns (valid : ofLevel level = .ok session) :
    let distance := level.start.distance level.target
    (distance + 3 ≤ level.maxSteps.toNat →
      ∃ program : Program, ∀ mode, ∃ session, ofLevel { level with mode } = .ok session ∧
        ∀ monitor, ∃ outcome, (session.run program.text monitor).outcome? = some outcome ∧
          outcome.IsCleanWin (distance + 3)) ∧
    ∀ monitor requests outcome,
      .outcome (some outcome) ∈ (Console.answerAll ⟨session, none, monitor⟩ requests).1 →
        outcome.won = true → distance ≤ outcome.log.countP (·.isMoved) := by
  intro distance
  have found := world_of_ofLevel valid
  obtain ⟨playable, world⟩ := Level.of_world_eq_ok found
  have apart : session.world.start.position.distance session.world.target = distance := by
    rw [world]
  refine ⟨?_, ?_⟩
  · intro allowed
    have budget : session.world.maxSteps = level.maxSteps.toNat := by rw [world]
    rw [← apart, ← budget] at allowed
    refine ⟨session.world.routeProgram, fun mode => ⟨_, ofLevel_mode valid mode, ?_⟩⟩
    obtain ⟨idle, -⟩ := running_of_ofLevel (ofLevel_mode valid mode)
    rw [← apart]
    exact isCleanWin_routeProgram idle playable allowed
  · intro monitor requests outcome told won
    rw [← apart]
    exact distance_le_of_won playable monitor requests told won

/-- The target of the reference level is ten cells away from the start. -/
theorem won_within_three_turns_reference :
    let source := "repeat(5, [move()]);\nturnRight();\nrepeat(5, [move()]);"
    let requests : List Console.Request := [.action (.run source)]
    ofLevel .reference = .ok .reference ∧
      (∃ program : Program, ∀ mode, ∃ session,
        ofLevel { Level.reference with mode } = .ok session ∧
          ∀ monitor, ∃ outcome, (session.run program.text monitor).outcome? = some outcome ∧
            outcome.IsCleanWin 13) ∧
      ∃ outcome,
        .outcome (some outcome) ∈ (Console.answerAll ⟨reference, none, .passive⟩ requests).1 ∧
          outcome.won = true ∧ 10 ≤ outcome.log.countP (·.isMoved) := by
  intro source requests
  have valid : ofLevel .reference = .ok .reference := rfl
  obtain ⟨wins, needs⟩ := won_within_three_turns valid
  have distance : Level.reference.start.distance Level.reference.target = 10 := by decide
  rw [distance] at wins needs
  have won : (reference.outcomeOf source).won = true := by decide +kernel
  have told : .outcome (some (reference.outcomeOf source)) ∈
      (Console.answerAll ⟨reference, none, .passive⟩ requests).1 := by
    rw [Console.answers_run, outcome?_run rfl source Monitor.untrapped_passive]
    exact List.mem_singleton_self _
  exact ⟨valid, wins (by decide), _, told, won, needs .passive requests _ told won⟩

end Session

end Rocket

import Rocket.Proofs.Finding.Order
import Rocket.Proofs.Reading.Whole
import Rocket.Proofs.Run.Record
import Rocket.Proofs.Session.Pace

/-!
# Coherent outcomes

However a run is driven, the parts of its outcome fit together: the status says how the
log ends, the log leads to the final rocket, and the run is won if the rocket has come to
the target by itself.

## Implementation notes

An attempt that is finished stands in one of three ways. Its source was refused, or its
run has made all steps of the trace, or it was cancelled behind some of them. Each of
them is coherent for reasons of its own.
-/

namespace Rocket

namespace LogEntry

/-- Replaying errors leaves the rocket where it is. -/
theorem replay?_syntaxErrors (world : World) (agent : Agent) (findings : List Finding) :
    world.replay? agent (findings.map fun finding =>
      .syntaxError finding.span.line finding.message) = some agent := by
  induction findings with
  | nil => rfl
  | cons finding rest ih => exact ih

end LogEntry

namespace Outcome

/-- What the log of an outcome of a source has to show, and where the rocket has to be,
for its status. -/
def Shows (session : Session) (source : String) (outcome : Outcome) : Status → Prop
  -- Every action of the program was performed, within the budget.
  | .completed =>
      (∀ entry ∈ outcome.log.toList, entry.isFailure = false) ∧
        ∃ program, (session.parsed source).program? = some program ∧
          outcome.log.size = program.actionCount ∧
          program.actionCount ≤ session.world.maxSteps
  -- The only failure is the last entry, a move from the final cell out of the grid.
  | .outOfBounds =>
      ∃ performed attempted,
        outcome.log.toList = performed ++ [.blocked outcome.finalAgent.position attempted] ∧
          (∀ entry ∈ performed, entry.isFailure = false) ∧
          attempted = outcome.finalAgent.position.step outcome.finalAgent.heading ∧
          session.world.grid.contains attempted = false
  -- The only failure is the last entry, behind as many actions as the budget allows.
  | .stepLimit =>
      ∃ performed,
        outcome.log.toList = performed ++ [.stepLimitExceeded session.world.maxSteps] ∧
          (∀ entry ∈ performed, entry.isFailure = false) ∧
          outcome.log.size = session.world.maxSteps + 1
  -- The log consists of the kept errors in source order, and nothing has moved.
  | .syntaxErrors =>
      (∃ reported : List Finding, reported.Perm outcome.findings.errors ∧
          (reported.map (·.span.line)).Pairwise (· ≤ ·) ∧
          outcome.log.toList =
            reported.map fun finding => .syntaxError finding.span.line finding.message) ∧
        outcome.log.size = min 20 outcome.findings.totalErrors ∧ 0 < outcome.log.size ∧
        outcome.finalAgent = session.world.start
  | .aborted => outcome.won = false
  | .fault => False

/-- Whether the parts of an outcome of a source fit together, and the log is a record of
what happened to the rocket. -/
structure IsCoherent (session : Session) (source : String) (outcome : Outcome) : Prop where
  findings : outcome.findings = (session.parsed source).findings
  shows : outcome.Shows session source outcome.status
  refused : outcome.status = .syntaxErrors ↔
    session.level.mode = .strict ∧ 0 < outcome.findings.totalErrors
  won : outcome.won = true ↔
    (outcome.status = .completed ∨ outcome.status = .outOfBounds ∨
        outcome.status = .stepLimit) ∧
      outcome.finalAgent.position = session.world.target
  verdict_aborted : outcome.verdict = .aborted ↔ outcome.status = .aborted
  verdict_won : outcome.verdict = .won ↔ outcome.won = true
  /-- Each entry says what happened to the rocket that the entries before it leave behind,
  and the last rocket is the final one. -/
  record : session.world.replay? session.world.start outcome.log.toList =
    some outcome.finalAgent

end Outcome

namespace Outcome

/-- A run that ended otherwise than by itself is not won, and what the learner is told
follows the status and whether the run is won. -/
theorem verdict_iff {outcome : Outcome} (fair : outcome.won = true → outcome.status ≠ .aborted) :
    (outcome.verdict = .aborted ↔ outcome.status = .aborted) ∧
      (outcome.verdict = .won ↔ outcome.won = true) := by
  unfold verdict
  by_cases aborted : outcome.status = .aborted
  · have lost : outcome.won = false := by
      cases won : outcome.won with
      | false => rfl
      | true => exact absurd aborted (fair won)
    simp [aborted, lost]
  · cases won : outcome.won with
    | false => simp [aborted]
    | true => simp [aborted]

end Outcome

theorem Status.isExecuted_iff {status : Status} :
    status.isExecuted = true ↔
      status = .completed ∨ status = .outOfBounds ∨ status = .stepLimit := by
  cases status <;> simp [isExecuted]

namespace Attempt

variable {attempt : Attempt} {world : World}

/-- An outcome is won if the run came to its own end and the rocket to the target. -/
theorem won_outcome (attempt : Attempt) (world : World) :
    (attempt.outcome world).won = true ↔
      ((attempt.outcome world).status = .completed ∨
          (attempt.outcome world).status = .outOfBounds ∨
          (attempt.outcome world).status = .stepLimit) ∧
        (attempt.outcome world).finalAgent.position = world.target := by
  rw [← Status.isExecuted_iff, ← World.isGoal_iff, ← Bool.and_eq_true]
  rfl

theorem verdict_outcome (attempt : Attempt) (world : World) :
    ((attempt.outcome world).verdict = .aborted ↔
        (attempt.outcome world).status = .aborted) ∧
      ((attempt.outcome world).verdict = .won ↔ (attempt.outcome world).won = true) := by
  apply Outcome.verdict_iff
  intro won aborted
  have executed := ((attempt.won_outcome world).1 won).1
  rw [aborted] at executed
  obtain h | h | h := executed <;> cases h

/-- Showing all steps goes on until the attempt is done. -/
theorem run?_playOut (attempt : Attempt) (monitor : Monitor) :
    (attempt.playOut monitor).attempt.run? = none := by
  refine play_induction (P := fun _ _ _ played => played.attempt.run? = none)
    (fun _ => false) ?ends ?stops ?goes attempt monitor #[]
  case ends =>
    intro attempt monitor shown pulled
    exact run?_of_next_none pulled
  case stops =>
    intro attempt monitor shown step pulled here
    cases here
  case goes =>
    intro attempt monitor shown step played pulled here ih
    exact ih

end Attempt

namespace Session

variable {session : Session} {source : String} {program : Program} {driven : Driven}
variable {outcome : Outcome}

/-- A source is refused exactly if it is read strictly and has errors. -/
theorem program?_eq_none_iff :
    (session.parsed source).program? = none ↔
      session.level.mode = .strict ∧ 0 < (session.parsed source).findings.totalErrors := by
  have errors := Parsed.hasErrors_ofRemarks (.ofText Source.defaultName source)
    session.level.mode (Parsed.remarks (.ofText Source.defaultName source))
  rw [← Parsed.findings_ofSource, Findings.hasErrors, decide_eq_true_iff] at errors
  unfold parsed
  rw [errors, Parsed.program?_ofSource]
  split
  next refused => exact iff_of_true rfl ⟨refused.1, refused⟩
  next accepted => exact iff_of_false (Option.some_ne_none _) fun h => accepted h.2

/-- How an attempt can stand whose run is over. -/
theorem Reaches.cases_of_isDone (h : session.Reaches source driven)
    (done : driven.attempt.run? = none) :
    (∃ program, (session.parsed source).program? = some program ∧
        (driven.attempt =
            (session.readAttempt source).settled session.world
              (session.world.trace program) ∨
          ∃ k, driven.attempt =
            (session.readAttempt source).aborted session.world
              ((session.world.trace program).take k))) ∨
      (session.parsed source).program? = none ∧
        driven.attempt = session.refusedAttempt source := by
  cases h with
  | @accepted program accepted follows =>
      refine .inl ⟨program, accepted, ?_⟩
      cases follows with
      | underWay inside made untrapped => cases done
      | settled untrapped => exact .inl rfl
      | @aborted k monitor inside untrapped => exact .inr ⟨k, rfl⟩
  | refused refused steps attempt => exact .inr ⟨refused, attempt⟩

/-- The outcome of an attempt is settled by making the steps that are left. -/
theorem Reaches.exists_finish (h : session.Reaches source driven) :
    ∃ final : Driven, session.Reaches source final ∧ final.attempt.run? = none ∧
      driven.finish session.world = final.attempt.outcome session.world :=
  ⟨driven.act (.play fun _ => false), h.actAll [.play fun _ => false],
    driven.attempt.run?_playOut driven.monitor, rfl⟩

/-- An outcome is coherent if it shows what its status says, has the findings of its source
and a log that leads to its rocket, and tells of syntax errors if its source is refused. -/
theorem isCoherent_outcome {attempt : Attempt}
    (findings : attempt.findings = (session.parsed source).findings)
    (shows : (attempt.outcome session.world).Shows session source
      (attempt.outcome session.world).status)
    (refused : (attempt.outcome session.world).status = .syntaxErrors ↔
      (session.parsed source).program? = none)
    (record : session.world.replay? session.world.start attempt.log.toList =
      some attempt.agent) :
    (attempt.outcome session.world).IsCoherent session source where
  findings := findings
  shows := shows
  refused := by
    rw [refused, program?_eq_none_iff, ← findings]
    rfl
  won := attempt.won_outcome session.world
  verdict_aborted := (attempt.verdict_outcome session.world).1
  verdict_won := (attempt.verdict_outcome session.world).2
  record := record

/-- A run that has made all its steps shows how it ended. -/
theorem shows_settled (base : Attempt) {steps : List Step}
    (accepted : (session.parsed source).program? = some program)
    (ends : session.world.Ends 0 session.world.start program.actionCount steps) :
    ((base.settled session.world steps).outcome session.world).Shows session source
      ((base.settled session.world steps).outcome session.world).status := by
  have status : ((base.settled session.world steps).outcome session.world).status =
      .ofHalt (steps.getLast?.bind (·.entry.halt?)) := rfl
  have log : ((base.settled session.world steps).outcome session.world).log.toList =
      steps.map (·.entry) := rfl
  rw [status]
  cases ends with
  | completed goes all allowed =>
      have calm : steps.getLast?.bind (·.entry.halt?) = none := by
        rw [Option.bind_eq_none_iff]
        intro step last
        exact LogEntry.halt?_of_not_isFailure (goes step (List.mem_of_getLast? last))
      rw [calm]
      refine ⟨?_, program, accepted, ?_, ?_⟩
      · rw [log, List.forall_mem_map]
        exact goes
      · rw [← Array.length_toList, log, List.length_map, all]
      · omega
  | @halted front last goes allowed still halts =>
      have final : ((base.settled session.world (front ++ [last])).outcome
          session.world).finalAgent = last.agent := by
        exact World.agentBehind_concat session.world.start front last
      have entries : (front ++ [last]).map (·.entry) =
          front.map (·.entry) ++ [last.entry] := by simp
      have calm : ∀ entry ∈ front.map (·.entry), entry.isFailure = false :=
        List.forall_mem_map.2 goes
      rw [List.getLast?_concat, Option.bind_some]
      rw [entries] at log
      generalize last.entry = entry at halts log
      cases halts with
      | blocked outside =>
          refine ⟨front.map (·.entry), _, ?_, calm, rfl, ?_⟩
          · rw [log, final]
          · rwa [final]
      | spent spent =>
          refine ⟨front.map (·.entry), log, calm, ?_⟩
          rw [← Array.length_toList, log, List.length_append, List.length_map,
            List.length_singleton]
          omega

/-- A run that was cancelled is not won. -/
theorem shows_aborted (base : Attempt) (made : List Step) :
    ((base.aborted session.world made).outcome session.world).Shows session source
      ((base.aborted session.world made).outcome session.world).status := rfl

/-- A log of errors reports them all, in source order. -/
theorem toList_refusalLog {fs : Findings} (all : ∀ finding ∈ fs.sorted, finding.isError = true) :
    (refusalLog fs).toList =
      fs.sorted.map fun finding => .syntaxError finding.span.line finding.message := by
  rw [refusalLog, List.filter_eq_self.2 all]

/-- The log of a source that is refused consists of its errors. -/
theorem shows_refused (refused : (session.parsed source).program? = none) :
    ((session.refusedAttempt source).outcome session.world).Shows session source
      ((session.refusedAttempt source).outcome session.world).status := by
  obtain ⟨strict, some⟩ := program?_eq_none_iff.1 refused
  have found : (session.parsed source).findings =
      .ofRemarks (.ofText Source.defaultName source) .strict
        (Parsed.remarks (.ofText Source.defaultName source)) := by
    rw [parsed, strict, Parsed.findings_ofSource]
  have order := Findings.perm_sorted (session.parsed source).findings
  have errors : ∀ finding ∈ (session.parsed source).findings.sorted,
      finding.isError = true := by
    intro finding member
    rw [order.mem_iff, found] at member
    obtain inErrors | inWarnings := List.mem_append.1 member
    · obtain ⟨remark, -, rfl⟩ := List.mem_map.1 inErrors
      rfl
    · cases inWarnings
  have log := toList_refusalLog errors
  have size : (refusalLog (session.parsed source).findings).size =
      min 20 (session.parsed source).findings.totalErrors := by
    rw [← Array.length_toList, log, List.length_map, order.length_eq, found]
    simp [Findings.ofRemarks, Findings.capacity]
  refine ⟨⟨(session.parsed source).findings.sorted, ?_, Findings.pairwise_lines_sorted _, log⟩,
    size, ?_, rfl⟩
  · have noWarnings : (session.parsed source).findings.warnings = [] := by rw [found]; rfl
    rwa [noWarnings, List.append_nil] at order
  · change 0 < (refusalLog (session.parsed source).findings).size
    omega

/-- Every attempt whose run is over has a coherent outcome. -/
theorem Reaches.isCoherent (h : session.Reaches source driven)
    (done : driven.attempt.run? = none) :
    (driven.attempt.outcome session.world).IsCoherent session source := by
  obtain ⟨program, accepted, settled | ⟨k, aborted⟩⟩ | ⟨refused, attempt⟩ :=
    h.cases_of_isDone done
  · rw [settled]
    have record := session.world.replay?_take_trace program (session.world.trace program).length
    rw [List.take_length] at record
    refine isCoherent_outcome rfl (shows_settled _ accepted (session.world.ends_trace program))
      (iff_of_false ?_ (by rw [accepted]; exact nofun)) record
    intro failed
    have own : Status.ofHalt (session.world.viewAfter (session.world.trace program)).halt? =
        .syntaxErrors := failed
    have executed := Status.isExecuted_ofHalt
      (session.world.viewAfter (session.world.trace program)).halt?
    rw [own] at executed
    cases executed
  · rw [aborted]
    exact isCoherent_outcome rfl (shows_aborted _ _)
      (iff_of_false nofun (by rw [accepted]; exact nofun))
      (session.world.replay?_take_trace program k)
  · rw [attempt]
    refine isCoherent_outcome rfl (shows_refused refused) (iff_of_true rfl refused) ?_
    exact LogEntry.replay?_syntaxErrors session.world session.world.start _

/-- However an attempt at a source is driven and finished, its outcome is coherent. -/
theorem outcome_coherent {level : Level} (valid : ofLevel level = .ok session) (source : String)
    {monitor : Monitor} (untrapped : monitor.trap? = none) (drivings : List Driving) :
    ∃ driven, session.drive source monitor drivings = some driven ∧
      (driven.finish session.world).IsCoherent session source := by
  obtain ⟨idle, -⟩ := running_of_ofLevel valid
  obtain ⟨driven, drove, reaches⟩ := drive_reaches idle source untrapped drivings
  obtain ⟨final, reachesFinal, done, finish⟩ := reaches.exists_finish
  refine ⟨driven, drove, ?_⟩
  rw [finish]
  exact reachesFinal.isCoherent done

/-- The case of a repetition that leaves the reference level behind its third action. -/
theorem outcome_coherent_reference :
    let source := "repeat(2, [\"move()\", \"turnLeft()\"]);"
    let drivings : List Driving := [.next, .play fun shown => shown.size == 7]
    ofLevel .reference = .ok .reference ∧ Monitor.passive.trap? = none ∧
      ∃ driven, reference.drive source .passive drivings = some driven ∧
        (driven.finish reference.world).status = .outOfBounds ∧
        (driven.finish reference.world).IsCoherent reference source := by
  intro source drivings
  have valid : ofLevel .reference = .ok .reference := rfl
  obtain ⟨driven, drove, coherent⟩ :=
    outcome_coherent valid source Monitor.untrapped_passive drivings
  have status : (reference.drive source .passive drivings).map
      (fun driven => (driven.finish reference.world).status) = some .outOfBounds := by
    decide +kernel
  rw [drove, Option.map_some, Option.some.injEq] at status
  exact ⟨valid, rfl, driven, drove, status, coherent⟩

end Session

end Rocket

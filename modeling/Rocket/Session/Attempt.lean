import Rocket.Run.Basic
import Rocket.Session.Event

/-!
# Attempts

A source under way in a session: a run that is pulled step by step, the log so
far, and how it ended. A run has ended for its attempt when a pull brings no step.
A breakdown of the run is caught and becomes part of the log.
-/

namespace Rocket

/-- A source under way in a session. -/
structure Attempt where
  sourceHash : String
  /-- Milliseconds to wait between two shown steps. -/
  delay : Nat
  findings : Findings
  log : Array LogEntry
  agent : Agent
  /-- The run, while it may bring further steps. -/
  run? : Option Run
  /-- Why the run stopped early, known once it has ended. -/
  halt? : Option Halt
  /-- How the attempt ended, unless the run came to its own end. -/
  status? : Option Status

/-- What a pull brings: a step or none, and the attempt and its observer after it. -/
structure Pulled where
  step? : Option Step
  attempt : Attempt
  monitor : Monitor

namespace Attempt

/-- The name of the attempt in events: the start of its source's digest. -/
def label (attempt : Attempt) : String :=
  "run " ++ String.ofList (attempt.sourceHash.toList.take 12)

/-- Report an event of this attempt. -/
def notify (attempt : Attempt) (monitor : Monitor) (event : Event) : Monitor :=
  monitor.record (some attempt.label) event

/-- Whether no further step will come. -/
def isDone (attempt : Attempt) : Bool :=
  attempt.run?.isNone

/-- End the attempt with a fault. -/
def recordFault (attempt : Attempt) (fault : Fault) (monitor : Monitor) : Attempt × Monitor :=
  ({ attempt with
      log := attempt.log.push (.executionError fault.text)
      run? := none
      status? := some .fault },
    attempt.notify monitor (.faultRecorded fault))

/-- The run has broken down with a message. -/
def breakDown (attempt : Attempt) (message : String) (monitor : Monitor) : Pulled :=
  let (attempt, monitor) :=
    attempt.recordFault ⟨.execute, message⟩ (attempt.notify monitor .breakdownCaught)
  ⟨none, attempt, monitor⟩

/-- The run has brought a step. -/
def deliver (attempt : Attempt) (step : Step) (after : Run) (monitor : Monitor) : Pulled :=
  let noted := attempt.notify monitor (.stepMade step.index step.line step.entry)
  { step? := some step
    attempt :=
      { attempt with
        log := attempt.log.push step.entry
        agent := step.agent
        run? := some after }
    monitor := noted }

/-- The run has made a step that halts it. A trapped run breaks down before the
step is delivered. -/
def deliverLast (attempt : Attempt) (step : Step) (after : Run) (halt : Halt)
    (monitor : Monitor) : Pulled :=
  let monitor := attempt.notify monitor (.runHalted step.line halt after.taken)
  match monitor.trap? with
  | none => attempt.deliver step after monitor
  | some payload => attempt.breakDown payload.text { monitor with trap? := none }

/-- Pull the next step. -/
def next (attempt : Attempt) (monitor : Monitor) : Pulled :=
  match attempt.run? with
  | none => ⟨none, attempt, monitor⟩
  | some run =>
      match run.next with
      | .error bad => attempt.breakDown bad.text monitor
      | .ok none => ⟨none, { attempt with run? := none, halt? := run.halt? }, monitor⟩
      | .ok (some (step, after)) =>
          match after.halt? with
          | none => attempt.deliver step after monitor
          | some halt => attempt.deliverLast step after halt monitor

/-- A bound on the number of steps to come. -/
def budget (attempt : Attempt) : Nat :=
  match attempt.run? with
  | none => 0
  | some run => run.budget

theorem step?_breakDown (attempt : Attempt) (message : String) (monitor : Monitor) :
    (attempt.breakDown message monitor).step? = none := rfl

theorem budget_deliverLast {attempt : Attempt} {made step : Step} {after : Run} {halt : Halt}
    {monitor : Monitor} (h : (attempt.deliverLast made after halt monitor).step? = some step) :
    (attempt.deliverLast made after halt monitor).attempt.budget = after.budget := by
  unfold deliverLast at h ⊢
  dsimp only at h ⊢
  split at h
  · rfl
  · simp [step?_breakDown] at h

/-- Each delivered step uses up part of the budget. -/
theorem budget_lt_of_next {attempt : Attempt} {monitor : Monitor} {step : Step}
    (h : (attempt.next monitor).step? = some step) :
    (attempt.next monitor).attempt.budget < attempt.budget := by
  unfold next at h ⊢
  split at h
  · simp at h
  next run hrun =>
    split at h
    · simp [step?_breakDown] at h
    · simp at h
    next made after hnext =>
      have less : after.budget < attempt.budget := by
        simpa [budget, hrun] using Run.budget_lt_of_next hnext
      split at h
      · exact less
      · exact Nat.lt_of_le_of_lt (Nat.le_of_eq (budget_deliverLast h)) less

/-- Stop the run, unless it has ended already. -/
def cancel (attempt : Attempt) (monitor : Monitor) : Attempt × Monitor :=
  if attempt.status?.isNone ∧ attempt.run?.isSome then
    ({ attempt with run? := none, status? := some .aborted },
      attempt.notify monitor (.runCancelled attempt.log.size))
  else (attempt, monitor)

/-- The steps that were shown, and the attempt and its observer after them. -/
structure Played where
  steps : Array Step
  attempt : Attempt
  monitor : Monitor

/-- Show the remaining steps one by one behind those already shown, and cancel the
run as soon as `stop` holds of all that were shown. -/
def play (stop : Array Step → Bool) (attempt : Attempt) (monitor : Monitor)
    (shown : Array Step) : Played :=
  let pulled := attempt.next monitor
  match _h : pulled.step? with
  | none => ⟨shown, pulled.attempt, pulled.monitor⟩
  | some step =>
      let shown := shown.push step
      if stop shown then
        let (attempt, monitor) := pulled.attempt.cancel pulled.monitor
        ⟨shown, attempt, monitor⟩
      else play stop pulled.attempt pulled.monitor shown
termination_by attempt.budget
decreasing_by exact budget_lt_of_next _h

/-- Show all remaining steps. -/
def playOut (attempt : Attempt) (monitor : Monitor) : Played :=
  attempt.play (fun _ => false) monitor #[]

/-- The outcome of an attempt that is done. -/
def outcome (attempt : Attempt) (world : World) : Outcome :=
  let status := attempt.status?.getD (.ofHalt attempt.halt?)
  { finalAgent := attempt.agent
    log := attempt.log
    won := status.isExecuted && world.isGoal attempt.agent
    status
    findings := attempt.findings
    sourceHash := attempt.sourceHash }

/-- Make all remaining steps and settle the outcome. -/
def finish (attempt : Attempt) (world : World) (monitor : Monitor) : Outcome × Monitor :=
  let played := attempt.playOut monitor
  let outcome := played.attempt.outcome world
  (outcome, played.attempt.notify played.monitor
    (.runFinished outcome.status outcome.won outcome.log.size))

end Attempt

end Rocket

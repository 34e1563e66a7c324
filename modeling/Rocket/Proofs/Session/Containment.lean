import Rocket.Proofs.Run.Record
import Rocket.Proofs.Session.Cancelling
import Rocket.Proofs.Session.Exclusion

/-!
# Breakdowns are contained

A trap springs when its observer learns that a run halts. The run breaks down in place of
its last step: the attempt stands where the steps before have left it, and its log says
what the trap carried. Nothing else is affected, neither the steps before, nor the rocket,
nor any other run of the session. A run that does not halt does not notice the trap.

## Implementation notes

An attempt under an observer with a trap is compared with one that is driven in the same
way under an observer without. The two are alike until the run halts. From then on the
first has broken down, and the second has delivered all steps, so that no more will come
of either.
-/

namespace Rocket

/-- The entry for a run that was broken down by what a trap carried. -/
def Payload.entry : Payload → LogEntry
  | .message text => .executionError ("executor panicked: " ++ text)
  | .other => .executionError "executor panicked: unknown panic payload"

theorem Payload.executionError_text (payload : Payload) :
    LogEntry.executionError (Fault.text ⟨.execute, payload.text⟩) = payload.entry := by
  cases payload with
  | message text =>
      have start : "executor" ++ " panicked: " = "executor panicked: " := by decide
      exact congrArg (fun start => LogEntry.executionError (start ++ text)) start
  | other => decide

namespace Attempt

/-- The attempt whose run has broken down behind some steps. -/
def brokenBehind (base : Attempt) (world : World) (made : List Step) (payload : Payload) :
    Attempt :=
  { base.behind world made with
    log := (made.map (·.entry)).toArray.push payload.entry
    run? := none
    halt? := none
    status? := some .fault }

theorem broken_underWay (base : Attempt) (world : World) (made : List Step) (run : Run)
    (payload : Payload) :
    (base.underWay world made run).broken payload.text =
      base.brokenBehind world made payload := by
  rw [broken, payload.executionError_text]
  rfl

end Attempt

/-- How what is delivered under an observer with a trap compares to what is delivered
without, both with the attempts they leave and behind the same steps. -/
inductive Shadows (base : Attempt) (world : World) (payload : Payload) (front : List Step)
    (free driven : List Step × Attempt) (trap? : Option Payload) : Prop
  /-- As long as no step halts the run the two are alike. -/
  | armed (quiet : ∀ step ∈ free.1, step.entry.halt? = none) (same : driven = free)
      (armed : trap? = some payload)
  /-- In place of the step that halts the run, the run breaks down. -/
  | sprung {made : List Step} {last : Step} (all : free.1 = made ++ [last])
      (halts : last.entry.halt?.isSome = true)
      (broken : driven = (made, base.brokenBehind world (front ++ made) payload))
      (gone : trap? = none)

namespace Shadows

variable {base attempt broken : Attempt} {world : World} {payload : Payload}
variable {front made more less : List Step} {trap? : Option Payload}

/-- Steps that do not halt the run may come before. -/
theorem behind (quiet : ∀ step ∈ made, step.entry.halt? = none)
    (h : Shadows base world payload (front ++ made) (more, attempt) (less, broken) trap?) :
    Shadows base world payload front (made ++ more, attempt) (made ++ less, broken) trap? := by
  cases h with
  | armed quietMore same armed =>
      obtain ⟨rfl, rfl⟩ := Prod.mk.inj same
      exact .armed (List.forall_mem_append.2 ⟨quiet, quietMore⟩) rfl armed
  | @sprung others last all halts same gone =>
      obtain ⟨rfl, rfl⟩ := Prod.mk.inj same
      obtain rfl : more = less ++ [last] := all
      have all : made ++ (less ++ [last]) = made ++ less ++ [last] :=
        (List.append_assoc _ _ _).symm
      refine .sprung all halts ?_ gone
      rw [List.append_assoc]

/-- Where there is no step without a trap, there is none under it. -/
theorem of_none {step? : Option Step}
    (h : Shadows base world payload front ([], attempt) (step?.toList, broken) trap?) :
    step? = none ∧ broken = attempt ∧ trap? = some payload := by
  generalize steps : ([], attempt) = free at h
  cases h with
  | armed quiet same armed =>
      obtain ⟨missing, rfl⟩ := Prod.mk.inj (same.trans steps.symm)
      exact ⟨Option.toList_eq_nil_iff.1 missing, rfl, armed⟩
  | @sprung made last all halts broken gone =>
      obtain rfl := steps
      exact absurd all.symm (List.append_ne_nil_of_right_ne_nil made (List.cons_ne_nil last []))

/-- A step that there is without a trap is there under it too, or it halts the run, which
breaks down. -/
theorem of_some {step : Step} {step? : Option Step}
    (h : Shadows base world payload front ([step], attempt) (step?.toList, broken) trap?) :
    (step? = some step ∧ broken = attempt ∧ step.entry.halt? = none ∧
        trap? = some payload) ∨
      step? = none ∧ broken = base.brokenBehind world front payload ∧
        step.entry.halt?.isSome = true ∧ trap? = none := by
  generalize steps : ([step], attempt) = free at h
  cases h with
  | armed quiet same armed =>
      obtain ⟨delivered, rfl⟩ := Prod.mk.inj (same.trans steps.symm)
      obtain rfl := steps
      exact .inl ⟨Option.toList_eq_singleton_iff.1 delivered, rfl,
        quiet step List.mem_cons_self, armed⟩
  | @sprung made last all halts same gone =>
      obtain rfl := steps
      obtain ⟨rfl, last⟩ := List.append_inj' (all.symm.trans (List.nil_append [step]).symm) rfl
      obtain rfl := List.singleton_inj.1 last
      obtain ⟨missing, rfl⟩ := Prod.mk.inj same
      rw [List.append_nil]
      exact .inr ⟨Option.toList_eq_nil_iff.1 missing, rfl, halts, gone⟩

end Shadows

namespace Driven

variable {base attempt : Attempt} {program : Program} {world : World} {payload : Payload}
variable {monitor other : Monitor} {front : List Step} {stopped : Bool} {free driven : Driven}
variable {last : Step}

/-- A step that halts the run is the last one of the trace. -/
theorem Follows.steps_of_halt (h : free.Follows base program world)
    (all : free.steps = front ++ [last]) (halts : last.entry.halt?.isSome = true) :
    world.trace program = front ++ [last] := by
  have ended : free.HasEnded program := ⟨last, by rw [all, List.getLast?_concat], .inl halts⟩
  rw [← all, h.steps_of_hasEnded ended]

/-- Driving an attempt takes no step back. -/
theorem steps_prefix_act (driven : Driven) (driving : Driving) :
    driven.steps <+: (driven.act driving).steps := by
  cases driving with
  | next => exact List.prefix_append _ _
  | play stop => exact List.prefix_append _ _
  | cancel => exact List.prefix_rfl

/-- Behind a step that halts the run no other comes. -/
theorem Follows.steps_act_of_halt (h : free.Follows base program world)
    (all : free.steps = front ++ [last]) (halts : last.entry.halt?.isSome = true)
    (driving : Driving) : (free.act driving).steps = front ++ [last] := by
  have trace := h.steps_of_halt all halts
  have after := h.act driving
  have most := after.steps_prefix.length_le
  have least := free.steps_prefix_act driving
  rw [trace, ← all] at most
  rw [← all]
  exact (least.eq_of_length (Nat.le_antisymm least.length_le most)).symm

theorem Follows.isDone_of_stopped (h : free.Follows base program world)
    (stopped : free.stopped = true) : free.attempt.run? = none := by
  cases h with
  | underWay inside made untrapped => cases stopped
  | settled untrapped => rfl
  | aborted inside untrapped => rfl

/-- What a pull brings under an observer with a trap. -/
theorem Follows.shadows_next (h : Follows base program world ⟨front, attempt, other, stopped⟩)
    (armed : monitor.trap? = some payload) :
    Shadows base world payload front
      ((attempt.next other).step?.toList, (attempt.next other).attempt)
      ((attempt.next monitor).step?.toList, (attempt.next monitor).attempt)
      (attempt.next monitor).monitor.trap? := by
  cases h with
  | @underWay k run _ inside made untrapped =>
      by_cases last : k = (world.trace program).length
      · subst last
        rw [List.take_length, Attempt.next_underWay_of_end made,
          Attempt.next_underWay_of_end made]
        exact .armed nofun rfl armed
      · have more : k < (world.trace program).length := by omega
        obtain ⟨after, next, madeNext⟩ := made.next_of_lt more
        have halt : after.halt? = (world.trace program)[k].entry.halt? := by
          have view := congrArg View.halt? madeNext.view
          rw [List.take_succ_eq_append_getElem more, World.viewAfter_concat] at view
          exact view
        have underWay :
            (base.underWay world ((world.trace program).take k) run).run? = some run := rfl
        cases halts : after.halt? with
        | none =>
            have going := Attempt.result_next_of_going underWay next halts
            obtain ⟨delivered, left⟩ := Prod.mk.inj (going other).1
            obtain ⟨delivered', left'⟩ := Prod.mk.inj (going monitor).1
            rw [delivered, left, delivered', left']
            refine .armed ?_ rfl ((going monitor).2.trans armed)
            intro step member
            rw [List.mem_singleton.1 member, ← halt, halts]
        | some why =>
            have ended := Attempt.result_next_of_halted underWay next (by rw [halts]; rfl)
            have free := (ended other).1
            have driven := (ended monitor).1
            rw [untrapped] at free
            rw [armed] at driven
            obtain ⟨delivered, left⟩ := Prod.mk.inj free
            obtain ⟨missing, broken⟩ := Prod.mk.inj driven
            rw [delivered, left, missing, broken, Attempt.broken_underWay]
            refine .sprung (List.nil_append [_]).symm ?_ ?_ (ended monitor).2
            · rw [← halt, halts]
              rfl
            · rw [List.append_nil]
              rfl
  | settled untrapped =>
      rw [Attempt.next_of_isDone rfl, Attempt.next_of_isDone rfl]
      exact .armed nofun rfl armed
  | aborted inside untrapped =>
      rw [Attempt.next_of_isDone rfl, Attempt.next_of_isDone rfl]
      exact .armed nofun rfl armed

/-- Behind the step that halts the run a pull brings nothing. -/
theorem Follows.step?_next_of_halt
    (h : Follows base program world ⟨front ++ [last], attempt, other, stopped⟩)
    (halts : last.entry.halt?.isSome = true) : (attempt.next other).step? = none := by
  have steps := h.steps_act_of_halt rfl halts .next
  have more : (front ++ [last]) ++ (attempt.next other).step?.toList = front ++ [last] := steps
  simpa using more

/-- Showing steps ends behind the one that halts the run, whatever the viewer wants. -/
theorem Follows.steps_play_of_halt (stop : Array Step → Bool) (shown : Array Step)
    (h : Follows base program world ⟨front, attempt, other, stopped⟩)
    (pulled : (attempt.next other).step? = some last)
    (halts : last.entry.halt?.isSome = true) :
    (attempt.play stop other shown).steps = shown.push last := by
  have after : Follows base program world
      ⟨front ++ (attempt.next other).step?.toList, _, _, stopped⟩ := h.next
  rw [pulled] at after
  rw [Attempt.play_of_some stop shown pulled]
  split
  · rfl
  · rw [Attempt.play_of_none stop _ (after.step?_next_of_halt halts)]

/-- What showing steps brings under an observer with a trap. -/
theorem Follows.shadows_play (stop : Array Step → Bool) (shown : Array Step)
    (h : Follows base program world ⟨front, attempt, other, stopped⟩)
    (armed : monitor.trap? = some payload) :
    ∃ more less, (attempt.play stop other shown).steps = shown ++ more.toArray ∧
      (attempt.play stop monitor shown).steps = shown ++ less.toArray ∧
      Shadows base world payload front
        (more, (attempt.play stop other shown).attempt)
        (less, (attempt.play stop monitor shown).attempt)
        (attempt.play stop monitor shown).monitor.trap? := by
  induction size : attempt.budget using Nat.strongRecOn
    generalizing attempt other monitor shown front stopped with
  | ind n ih =>
      have after : Follows base program world
          ⟨front ++ (attempt.next other).step?.toList, _, _, stopped⟩ := h.next
      have shadows := h.shadows_next armed
      cases pulled : (attempt.next other).step? with
      | none =>
          rw [pulled, Option.toList_none] at shadows
          obtain ⟨missing, left, trap⟩ := shadows.of_none
          rw [Attempt.play_of_none stop shown pulled, Attempt.play_of_none stop shown missing]
          exact ⟨[], [], by simp, by simp, .armed nofun (by rw [left]) trap⟩
      | some step =>
          rw [pulled, Option.toList_some] at shadows after
          obtain ⟨delivered, left, quiet, trap⟩ | ⟨missing, left, halts, gone⟩ := shadows.of_some
          · have quiet : ∀ other ∈ [step], other.entry.halt? = none :=
              List.forall_mem_singleton.2 quiet
            rw [Attempt.play_of_some stop shown pulled, Attempt.play_of_some stop shown delivered,
              left]
            by_cases here : stop (shown.push step) = true
            · rw [if_pos here, if_pos here]
              refine ⟨[step], [step], by simp, by simp, .armed quiet ?_ ?_⟩
              · exact congrArg (Prod.mk [step]) (Attempt.cancel_fst _ _ _)
              · exact (Attempt.trap?_cancel _ _).trans trap
            · rw [if_neg here, if_neg here]
              have less := Attempt.budget_lt_of_next pulled
              rw [size] at less
              obtain ⟨more, others, freeSteps, steps, others'⟩ :=
                ih _ less (shown.push step) after trap rfl
              exact ⟨step :: more, step :: others, by simp [freeSteps], by simp [steps],
                others'.behind quiet⟩
          · refine ⟨[step], [], ?_, ?_, ?_⟩
            · rw [h.steps_play_of_halt stop shown pulled halts]
              simp
            · simp [Attempt.play_of_none stop shown missing]
            · rw [Attempt.play_of_none stop shown missing]
              refine .sprung (List.nil_append [_]).symm halts ?_ gone
              rw [left, List.append_nil]

/-- Whether an attempt stands as a trap leaves it, when another that is driven without a
trap stands as it does. -/
def IsShadow (base : Attempt) (world : World) (payload : Payload) (free driven : Driven) :
    Prop :=
  Shadows base world payload [] (free.steps, free.attempt) (driven.steps, driven.attempt)
    driven.monitor.trap?

/-- Before an attempt is driven there is no difference. -/
theorem isShadow_start (base : Attempt) (world : World) (attempt : Attempt) (other : Monitor)
    (armed : monitor.trap? = some payload) :
    IsShadow base world payload (start attempt other) (start attempt monitor) :=
  .armed nofun rfl armed

/-- Until a step halts the run nothing can be told apart. -/
theorem IsShadow.of_quiet (shadow : IsShadow base world payload free driven)
    (quiet : ∀ step ∈ free.steps, step.entry.halt? = none) :
    driven.steps = free.steps ∧ driven.attempt = free.attempt := by
  cases shadow with
  | armed quiet same armed => exact Prod.mk.inj same
  | @sprung made last all halts broken gone =>
      have member : last ∈ free.steps := by
        rw [show free.steps = made ++ [last] from all]
        simp
      rw [quiet last member] at halts
      cases halts

/-- Where a step halts the run, it is missing. -/
theorem IsShadow.of_halt (shadow : IsShadow base world payload free driven)
    (all : free.steps = front ++ [last]) (halts : last.entry.halt?.isSome = true) :
    driven.steps = front ∧ driven.attempt = base.brokenBehind world front payload := by
  cases shadow with
  | armed quiet same armed =>
      rw [quiet last (by simp [all])] at halts
      cases halts
  | sprung all' halts' broken gone =>
      obtain ⟨rfl, -⟩ := List.append_inj' (all'.symm.trans all) rfl
      exact Prod.mk.inj broken

/-- However two attempts are driven next, both in the same way, they compare as before. -/
theorem Follows.isShadow_act (h : free.Follows base program world)
    (shadow : IsShadow base world payload free driven) (driving : Driving) :
    IsShadow base world payload (free.act driving) (driven.act driving) := by
  obtain ⟨front, attempt, other, stopped⟩ := free
  obtain ⟨steps, still, monitor, ended⟩ := driven
  cases shadow with
  | armed quiet same armed =>
      dsimp only at quiet same armed
      obtain ⟨rfl, rfl⟩ := Prod.mk.inj same
      cases driving with
      | next => exact (h.shadows_next armed).behind quiet
      | play stop =>
          obtain ⟨more, less, freeSteps, drivenSteps, shadows⟩ := h.shadows_play stop #[] armed
          have all : Shadows base world payload [] _ _ _ := shadows.behind quiet
          have freeAll : (still.play stop other #[]).steps.toList = more := by simp [freeSteps]
          have drivenAll : (still.play stop monitor #[]).steps.toList = less := by
            simp [drivenSteps]
          rw [← freeAll, ← drivenAll] at all
          exact all
      | cancel =>
          refine .armed quiet ?_ ((Attempt.trap?_cancel _ _).trans armed)
          exact congrArg (Prod.mk _) (Attempt.cancel_fst _ _ _)
  | @sprung made last all halts broken gone =>
      dsimp only at all broken gone
      obtain ⟨rfl, rfl⟩ := Prod.mk.inj broken
      have done : (⟨steps, base.brokenBehind world ([] ++ steps) payload, monitor, ended⟩ :
          Driven).attempt.run? = none := rfl
      obtain ⟨_, same⟩ := act_of_isDone done driving
      rw [same]
      exact .sprung (h.steps_act_of_halt all halts driving) halts rfl gone

theorem Follows.isShadow_actAll (h : free.Follows base program world)
    (shadow : IsShadow base world payload free driven) (drivings : List Driving) :
    IsShadow base world payload (free.actAll drivings) (driven.actAll drivings) := by
  induction drivings generalizing free driven with
  | nil => exact shadow
  | cons driving rest ih => exact ih (h.act driving) (h.isShadow_act shadow driving)

end Driven

/-- The outcome of a run that was broken down behind some steps. -/
def Outcome.asBroken (outcome : Outcome) (made : List Step) (payload : Payload) : Outcome :=
  { outcome with
    log := (made.map (·.entry)).toArray.push payload.entry
    won := false
    status := .fault }

/-- Whether an attempt has broken down behind some steps, and keeps to that. -/
structure Driven.IsBroken (session : Session) (outcome : Outcome) (payload : Payload)
    (made : List Step) (driven : Driven) : Prop where
  steps : driven.steps = made
  agent : driven.attempt.agent = (made.getLast?.map (·.agent)).getD session.world.start
  log : driven.attempt.log.toList = made.map (·.entry) ++ [payload.entry]
  findings : driven.attempt.findings = outcome.findings
  done : driven.attempt.isDone = true
  still : ∀ drivings, (driven.actAll drivings).steps = made ∧
    (driven.actAll drivings).attempt = driven.attempt
  finish : driven.finish session.world = outcome.asBroken made payload
  verdict : (driven.finish session.world).verdict = .lost

/-- Whether a trap has no more effect on an attempt than it should, when the same attempt
is driven in the same way without a trap, and the run without a trap has an outcome. -/
structure Driven.IsContained (session : Session) (source : String) (outcome : Outcome)
    (payload : Payload) (driven free : Driven) : Prop where
  /-- Without a trap the steps delivered are the first ones of the source. -/
  steps_prefix : free.steps <+: session.stepsOf source
  /-- Until a step halts the run there is no difference. -/
  alike : (∀ step ∈ free.steps, step.entry.halt? = none) →
    driven.steps = free.steps ∧ driven.attempt = free.attempt
  /-- In place of the step that halts the run, the run breaks down. -/
  broken : ∀ made last, free.steps = made ++ [last] → last.entry.halt?.isSome = true →
    driven.IsBroken session outcome payload made
  /-- A run that was not stopped breaks down when it is finished. -/
  finish : free.stopped = false → ∀ made last, session.stepsOf source = made ++ [last] →
    last.entry.halt?.isSome = true →
      driven.finish session.world = outcome.asBroken made payload
  /-- A run that was stopped before it halted has its outcome. -/
  stopped : free.stopped = true → (∀ step ∈ free.steps, step.entry.halt? = none) →
    driven.finish session.world = free.finish session.world
  /-- A run that does not halt is not affected. -/
  unaffected : (∀ step ∈ session.stepsOf source, step.entry.halt? = none) →
    driven.steps = free.steps ∧ driven.attempt = free.attempt ∧
      driven.finish session.world = free.finish session.world

namespace Session

open Console

variable {session : Session} {source : String} {program : Program} {payload : Payload}
variable {monitor : Monitor} {free driven : Driven} {made : List Step} {last : Step}

/-- A step that halts the run leaves the rocket where it was. -/
theorem agent_of_halt {world : World} (trace : world.trace program = made ++ [last])
    (halts : last.entry.halt?.isSome = true) :
    (world.viewAfter (world.trace program)).agent = (world.viewAfter made).agent := by
  have ends := world.ends_trace program
  rw [trace] at ends ⊢
  generalize all : made ++ [last] = steps at ends ⊢
  cases ends with
  | completed goes _ _ =>
      have calm := LogEntry.halt?_of_not_isFailure (goes last (by simp [← all]))
      rw [calm] at halts
      cases halts
  | @halted front final goes allowed still halts' =>
      obtain ⟨rfl, same⟩ := List.append_inj' all rfl
      rw [World.agent_viewAfter, World.agent_viewAfter, World.agentBehind_concat, still]

/-- The outcome of a run that breaks down in place of its last step. -/
theorem outcome_brokenBehind (accepted : (session.parsed source).program? = some program)
    (trace : session.world.trace program = made ++ [last])
    (halts : last.entry.halt?.isSome = true) :
    ((session.readAttempt source).brokenBehind session.world made payload).outcome
        session.world =
      (session.outcomeOf source).asBroken made payload := by
  have agent := agent_of_halt trace halts
  rw [outcomeOf_of_some accepted]
  simp only [Attempt.outcome, Attempt.brokenBehind, Attempt.settled, Attempt.behind,
    Outcome.asBroken, agent]
  rfl

/-- An attempt that was broken down behind some steps keeps to that. -/
theorem isBroken_of_attempt (accepted : (session.parsed source).program? = some program)
    (trace : session.world.trace program = made ++ [last])
    (halts : last.entry.halt?.isSome = true) (steps : driven.steps = made)
    (attempt : driven.attempt =
      (session.readAttempt source).brokenBehind session.world made payload) :
    driven.IsBroken session (session.outcomeOf source) payload made := by
  have done : driven.attempt.run? = none := by rw [attempt]; rfl
  have finish : driven.finish session.world =
      (session.outcomeOf source).asBroken made payload := by
    rw [Driven.finish_of_isDone done, attempt, outcome_brokenBehind accepted trace halts]
  constructor
  case steps => exact steps
  case agent => rw [attempt]; rfl
  case log => simp [attempt, Attempt.brokenBehind]
  case findings => rw [attempt, outcomeOf_of_some accepted]; rfl
  case done => rw [Attempt.isDone, done]; rfl
  case still =>
    intro drivings
    obtain ⟨_, stays⟩ := Driven.actAll_of_isDone done drivings
    rw [stays]
    exact ⟨steps, rfl⟩
  case finish => exact finish
  case verdict => rw [finish]; rfl

/-- A trap is contained if its attempt compares to one without a trap. -/
theorem isContained_of_isShadow (accepted : (session.parsed source).program? = some program)
    (follows : free.Follows (session.readAttempt source) program session.world)
    (shadow : Driven.IsShadow (session.readAttempt source) session.world payload free driven) :
    driven.IsContained session source (session.outcomeOf source) payload free := by
  have shadowAll := follows.isShadow_act shadow (.play fun _ => false)
  have followsAll := follows.act (.play fun _ => false)
  have steps := stepsOf_of_some accepted
  constructor
  case steps_prefix => exact steps ▸ follows.steps_prefix
  case alike => exact shadow.of_quiet
  case broken =>
    intro made last all halts
    obtain ⟨less, attempt⟩ := shadow.of_halt all halts
    exact isBroken_of_attempt accepted (follows.steps_of_halt all halts) halts less attempt
  case finish =>
    intro going made last all halts
    rw [steps] at all
    have delivered := (follows.playOut going).1.trans all
    obtain ⟨-, attempt⟩ := shadowAll.of_halt delivered halts
    rw [← outcome_brokenBehind accepted all halts, ← attempt]
    rfl
  case stopped =>
    intro stopped quiet
    obtain ⟨-, attempt⟩ := shadow.of_quiet quiet
    have done := follows.isDone_of_stopped stopped
    rw [Driven.finish_of_isDone done, Driven.finish_of_isDone (attempt ▸ done), attempt]
  case unaffected =>
    intro quiet
    rw [steps] at quiet
    have quietAll : ∀ step ∈ (free.act (.play fun _ => false)).steps, step.entry.halt? = none :=
      fun step member => quiet step (followsAll.steps_prefix.subset member)
    obtain ⟨-, attempt⟩ := shadowAll.of_quiet quietAll
    obtain ⟨same, still⟩ :=
      shadow.of_quiet fun step member => quiet step (follows.steps_prefix.subset member)
    exact ⟨same, still, congrArg (Attempt.outcome · session.world) attempt⟩

/-- A source that is refused has no run that a trap could break down. -/
theorem isContained_of_refused (refused : (session.parsed source).program? = none)
    (none : free.steps = []) (same : driven.steps = free.steps)
    (still : driven.attempt = free.attempt) (done : free.attempt.run? = .none) :
    driven.IsContained session source (session.outcomeOf source) payload free := by
  have finish : driven.finish session.world = free.finish session.world := by
    rw [Driven.finish_of_isDone done, Driven.finish_of_isDone (still ▸ done), still]
  constructor
  case steps_prefix => exact none ▸ List.nil_prefix
  case alike => exact fun _ => ⟨same, still⟩
  case broken =>
    intro made last all
    simp [none] at all
  case finish =>
    intro _ made last all
    simp [stepsOf_of_none refused] at all
  case stopped => exact fun _ _ => finish
  case unaffected => exact fun _ => ⟨same, still, finish⟩

/-- However a source is driven under an observer with a trap, the trap is contained. -/
theorem drive_isContained (idle : session.running = false) (source : String)
    (armed : monitor.trap? = some payload) (drivings : List Driving) :
    ∃ driven free, session.drive source monitor drivings = some driven ∧
      session.drive source .passive drivings = some free ∧
      driven.IsContained session source (session.outcomeOf source) payload free := by
  cases read : (session.parsed source).program? with
  | none =>
      have done : ∀ watching,
          (Driven.start (session.refusedAttempt source) watching).attempt.run? = none :=
        fun _ => rfl
      obtain ⟨_, driven⟩ := Driven.actAll_of_isDone (done monitor) drivings
      obtain ⟨_, free⟩ := Driven.actAll_of_isDone (done .passive) drivings
      refine ⟨_, _, drive_of_start (start_of_none idle read monitor) drivings,
        drive_of_start (start_of_none idle read .passive) drivings, ?_⟩
      rw [driven, free]
      exact isContained_of_refused read rfl rfl rfl rfl
  | some program =>
      obtain ⟨watching, started, same⟩ := start_of_some idle read monitor
      obtain ⟨passive, startedFree, sameFree⟩ := start_of_some idle read .passive
      have follows := Driven.follows_start (session.readAttempt source) program session.world
        sameFree
      refine ⟨_, _, drive_of_start started drivings, drive_of_start startedFree drivings, ?_⟩
      apply isContained_of_isShadow read (follows.actAll drivings)
      exact follows.isShadow_actAll (Driven.isShadow_start _ _ _ _ (same.trans armed)) drivings

/-- A breakdown is contained. Until the run halts, an attempt under an observer with a trap
is as without; in place of the step that halts it, the run breaks down, and its outcome is
that without the trap but for the entry that says so. Whatever is asked of the session
before is answered as without a trap, and whatever is asked of it once the attempt is gone
is answered as by a new session. -/
theorem fault_contained {level : Level} (valid : ofLevel level = .ok session)
    (armed : monitor.trap? = some payload) :
    (∀ source, ∃ outcome, (session.run source .passive).outcome? = some outcome ∧
      ∀ drivings, ∃ driven free, session.drive source monitor drivings = some driven ∧
        session.drive source .passive drivings = some free ∧
        driven.IsContained session source outcome payload free) ∧
    ∀ requests,
      let console := (answerAll ⟨session, none, monitor⟩ requests).2
      console.session = { session with running := console.attempt?.isSome } ∧
        (console.monitor.trap? = some payload ∧
            (result (answerAll ⟨session, none, monitor⟩ requests)).1 =
              (result (answerAll ⟨session, none, .passive⟩ requests)).1 ∨
          console.monitor.trap? = none ∧
            (console.attempt? = none → ∀ later,
              (result (console.answerAll later)).1 =
                (result (answerAll ⟨session, none, .passive⟩ later)).1)) := by
  obtain ⟨idle, -⟩ := running_of_ofLevel valid
  refine ⟨?_, ?_⟩
  · intro source
    exact ⟨session.outcomeOf source, outcome?_run idle source Monitor.untrapped_passive,
      drive_isContained idle source armed⟩
  · intro requests console
    have new : Holds session false ⟨session, none, monitor⟩ := ⟨by rw [← idle], rfl⟩
    have holds := new.answerAll requests
    have same : console.session = { session with running := console.attempt?.isSome } := by
      rw [holds.isSome, holds.session_eq]
    refine ⟨same, ?_⟩
    have once := (isWatched_answerAll session none requests).once monitor
    obtain kept | gone := once
    · exact .inl ⟨kept.trans armed, result_answerAll_of_unsprung requests kept⟩
    · refine .inr ⟨gone, ?_⟩
      intro absent later
      apply result_answerAll_of_alike ?_ absent gone
      rw [same, absent, Option.isSome_none, ← idle]

/-- A turn and a move that leaves the grid, pulled twice and shown to the end, when what the
trap carries is a message. -/
theorem fault_contained_reference :
    let source := "turnLeft();\nmove();"
    let trapped : Monitor := ⟨#[], some (.message "boom")⟩
    let turned : Step := ⟨0, 1, ⟨⟨0, 5⟩, .left⟩, .turned .left .left⟩
    ofLevel .reference = .ok .reference ∧ trapped.trap? = some (.message "boom") ∧
      ∃ outcome driven, (reference.run source .passive).outcome? = some outcome ∧
        reference.drive source trapped [.next, .next, .play fun _ => false] = some driven ∧
        driven.IsBroken reference outcome (.message "boom") [turned] := by
  intro source trapped turned
  have valid : ofLevel .reference = .ok .reference := rfl
  have armed : trapped.trap? = some (.message "boom") := rfl
  obtain ⟨outcome, ran, driving⟩ := (fault_contained valid armed).1 source
  obtain ⟨driven, free, drove, droveFree, contained⟩ :=
    driving [.next, .next, .play fun _ => false]
  have steps : (reference.drive source .passive [.next, .next, .play fun _ => false]).map
      Driven.steps =
        some ([turned] ++ [⟨1, 2, ⟨⟨0, 5⟩, .left⟩, .blocked ⟨0, 5⟩ ⟨-1, 5⟩⟩]) := by
    decide +kernel
  rw [droveFree, Option.map_some, Option.some.injEq] at steps
  exact ⟨valid, armed, outcome, driven, ran, drove, contained.broken _ _ steps rfl⟩

end Session

end Rocket

import Rocket.Proofs.Reading.Modes
import Rocket.Proofs.Session.Pace

/-!
# Strict sessions

A session that reads strictly refuses a source exactly if the page has something to warn
of in it, and exactly if the tool finds errors in it. Being refused is the only way to end
with syntax errors: a run can end in many ways, but not in this one.
-/

namespace Rocket

namespace Attempt

variable {attempt : Attempt}

/-- Whether the attempt does not stand as one that was refused. -/
def IsRead (attempt : Attempt) : Prop :=
  attempt.status? ≠ some .syntaxErrors

/-- No pull makes a refused attempt of another one. -/
theorem IsRead.next (h : attempt.IsRead) (monitor : Monitor) :
    (attempt.next monitor).attempt.IsRead := by
  obtain ⟨step, after, watching, delivered⟩ | ⟨-, -, same | fault⟩ := attempt.next_cases monitor
  · rw [delivered]
    exact h
  · rwa [IsRead, same]
  · rw [IsRead, fault]
    exact nofun

theorem IsRead.cancel (h : attempt.IsRead) (monitor : Monitor) :
    (attempt.cancel monitor).1.IsRead := by
  unfold Attempt.cancel
  split
  · exact nofun
  · exact h

theorem IsRead.play (h : attempt.IsRead) (stop : Array Step → Bool) (monitor : Monitor)
    (shown : Array Step) : (attempt.play stop monitor shown).attempt.IsRead := by
  refine play_induction (P := fun attempt _ _ played => attempt.IsRead → played.attempt.IsRead)
    stop ?ends ?stops ?goes attempt monitor shown h
  case ends =>
    intro attempt monitor shown pulled h
    exact h.next monitor
  case stops =>
    intro attempt monitor shown step pulled here _ h
    exact (h.next monitor).cancel _
  case goes =>
    intro attempt monitor shown step played pulled here ih h
    exact ih (h.next monitor)

theorem IsRead.status_outcome (h : attempt.IsRead) (world : World) :
    (attempt.outcome world).status ≠ .syntaxErrors := by
  unfold IsRead at h
  cases status : attempt.status? with
  | none =>
      have own : (attempt.outcome world).status = .ofHalt attempt.halt? := by
        simp [outcome, status]
      rw [own]
      match attempt.halt? with
      | none | some (.outOfBounds _ _) | some (.stepLimit _) => exact nofun
  | some found =>
      have same : (attempt.outcome world).status = found := by simp [outcome, status]
      rw [same]
      rintro rfl
      exact h status

end Attempt

theorem Driven.isRead_actAll {driven : Driven} (h : driven.attempt.IsRead)
    (drivings : List Driving) : (driven.actAll drivings).attempt.IsRead := by
  induction drivings generalizing driven with
  | nil => exact h
  | cons driving rest ih =>
      apply ih
      cases driving with
      | next => exact h.next _
      | play stop => exact h.play _ _ _
      | cancel => exact h.cancel _

namespace Session

variable {session : Session} {level : Level}

/-- An attempt ends with syntax errors exactly if its source was refused, however it is
driven and whatever breaks down. -/
theorem status_drive (idle : session.running = false) (source : String) (monitor : Monitor)
    (drivings : List Driving) :
    ∃ driven, session.drive source monitor drivings = some driven ∧
      ((driven.finish session.world).status = .syntaxErrors ↔
        (session.parsed source).program? = none) := by
  cases found : (session.parsed source).program? with
  | none =>
      have started := start_of_none idle found monitor
      have done : (Driven.start (session.refusedAttempt source) monitor).attempt.run? = none := rfl
      refine ⟨_, drive_of_start started drivings, ?_⟩
      rw [Driven.finish_actAll_of_isDone done]
      exact iff_of_true rfl rfl
  | some program =>
      obtain ⟨watching, started, -⟩ := start_of_some idle found monitor
      have fresh : (Driven.start ((session.readAttempt source).underWay session.world []
          (.start program session.world)) watching).attempt.IsRead := nofun
      refine ⟨_, drive_of_start started drivings, iff_of_false ?_ nofun⟩
      exact ((Driven.isRead_actAll fresh drivings).play _ _ _).status_outcome session.world

end Session

/-- The tool has no objection to a file exactly if there is nothing to remark on it. -/
theorem Reply.exit_ofInvocation_check {files : Files} {path text : String}
    (readable : files path = .ok text) :
    (Reply.ofInvocation files (.check path true)).exit = Reply.success ↔
      Parsed.remarks (.ofText path text) = [] := by
  have errors := Parsed.hasErrors_ofRemarks (.ofText path text) .strict
    (Parsed.remarks (.ofText path text))
  rw [← Parsed.findings_ofSource] at errors
  have answer : Reply.ofInvocation files (.check path true) = Reply.check path text .strict := by
    simp only [Reply.ofInvocation, Reply.readFile_of_ok readable, bind, Except.bind]
    rfl
  have exit : (Reply.check path text .strict).exit =
      if (Parsed.ofSource (.ofText path text) .strict).findings.hasErrors then Reply.failure
      else Reply.success := rfl
  rw [answer, exit]
  by_cases clean : Parsed.remarks (.ofText path text) = []
  · have none : ¬ (Parsed.ofSource (.ofText path text) .strict).findings.hasErrors = true :=
      fun some => (errors.1 some).2 clean
    rw [if_neg none]
    exact iff_of_true rfl clean
  · rw [if_pos (errors.2 ⟨rfl, clean⟩)]
    exact iff_of_false (by decide) clean

theorem Page.totalWarnings_check (text : String) :
    (Page.check text).totalWarnings = 0 ↔
      Parsed.remarks (.ofText Source.defaultName text) = [] := by
  rw [Page.check, Parsed.totalWarnings_permissive, List.length_eq_zero_iff]

/-- Strict and permissive reading see the same in every text. The page therefore has
nothing to warn of in a text exactly if the tool accepts it strictly, and exactly if no
attempt at it in a strict session ends with syntax errors, however it is driven. -/
theorem strict_sees_what_permissive_sees {level : Level} {session : Session}
    (strict : level.mode = .strict) (valid : Session.ofLevel level = .ok session)
    {files : Files} {path text : String} (readable : files path = .ok text) :
    (∀ name, (Parsed.ofSource (.ofText name text) .strict).IsStrictOf
        (Parsed.ofSource (.ofText name text) .permissive)) ∧
      ((Page.check text).totalWarnings = 0 ↔
        (Reply.ofInvocation files (.check path true)).exit = Reply.success) ∧
      ∀ monitor drivings, ∃ driven, session.drive text monitor drivings = some driven ∧
        ((Page.check text).totalWarnings = 0 ↔
          (driven.finish session.world).status ≠ .syntaxErrors) := by
  refine ⟨fun name => Parsed.isStrictOf_ofSource _, ?_, ?_⟩
  · rw [Page.totalWarnings_check, Reply.exit_ofInvocation_check readable]
    exact Parsed.remarks_ofText_eq_nil _ _ _
  · intro monitor drivings
    obtain ⟨idle, same⟩ := Session.running_of_ofLevel valid
    obtain ⟨driven, drove, status⟩ := Session.status_drive idle text monitor drivings
    refine ⟨driven, drove, ?_⟩
    have refused : (session.parsed text).program? = none ↔
        Parsed.remarks (.ofText Source.defaultName text) ≠ [] := by
      rw [Session.parsed, same, strict, Parsed.program?_ofSource]
      simp
    rw [Page.totalWarnings_check, ne_eq, status, refused, not_not]

/-- In the reference level read strictly, the page and the tool agree on a misspelt move. -/
theorem strict_sees_what_permissive_sees_reference :
    let level := { Level.reference with mode := .strict }
    let session : Session := ⟨level, .reference, false⟩
    let files : Files := fun _ => .ok "mvoe();"
    level.mode = .strict ∧ Session.ofLevel level = .ok session ∧
      files "star.pilot" = .ok "mvoe();" ∧
      ((Page.check "mvoe();").totalWarnings = 0 ↔
        (Reply.ofInvocation files (.check "star.pilot" true)).exit = Reply.success) ∧
      ∃ driven, session.drive "mvoe();" .passive [.next, .cancel] = some driven ∧
        ((Page.check "mvoe();").totalWarnings = 0 ↔
          (driven.finish session.world).status ≠ .syntaxErrors) := by
  intro level session files
  have strict : level.mode = .strict := rfl
  have valid : Session.ofLevel level = .ok session := rfl
  have readable : files "star.pilot" = .ok "mvoe();" := rfl
  obtain ⟨-, tool, driving⟩ := strict_sees_what_permissive_sees strict valid readable
  exact ⟨strict, valid, readable, tool, driving .passive [.next, .cancel]⟩

end Rocket

import Rocket.Proofs.Reading.Expansion
import Rocket.Proofs.Reading.Locality
import Rocket.Proofs.Reading.Pointing
import Rocket.Proofs.Run.Ending
import Rocket.Proofs.Run.Safety

/-!
# Counting from a source to its runs

A run counts the actions of its program and no further, so its numbers fit wherever the
number of these actions does. For a source whose places can be counted in 32 bits, the
actions of its program can be counted in 64.
-/

namespace Rocket

namespace Run

variable {program : Program} {world : World} {run last : Run} {k : Nat} {steps : List Step}

/-- However many steps a run makes, they are among those of the trace. -/
theorem Makes.length_le (makes : run.Makes steps last) (made : run.HasMade program world k)
    (bound : k ≤ (world.trace program).length) :
    k + steps.length ≤ (world.trace program).length := by
  induction makes generalizing k with
  | rest run => exact bound
  | @step run middle last step steps next others ih =>
      by_cases inside : k < (world.trace program).length
      · obtain ⟨after, found, madeNext⟩ := made.next_of_lt inside
        rw [found] at next
        obtain ⟨-, rfl⟩ := Prod.mk.inj (Option.some.inj (Except.ok.inj next))
        have length := ih madeNext inside
        rw [List.length_cons]
        omega
      · rw [(made.next_of_le (Nat.not_lt.1 inside)).1] at next
        cases next

/-- A step performs one action at most. -/
theorem Makes.taken_le (makes : run.Makes steps last) : last.taken ≤ run.taken + steps.length := by
  induction makes with
  | rest run => exact Nat.le_refl _
  | @step run middle last step steps next others ih =>
      obtain ⟨-, p, line, behind, -, made⟩ := exists_advance_of_next next
      obtain ⟨rfl, rfl⟩ := Prod.mk.inj made
      dsimp only [advance] at ih
      rw [List.length_cons]
      split at ih <;> omega

/-- Every step has the number of one that was made. -/
theorem Makes.index_lt (makes : run.Makes steps last) :
    ∀ step ∈ steps, step.index < last.index := by
  induction makes with
  | rest run => exact List.forall_mem_nil _
  | @step run middle last step steps next others ih =>
      refine List.forall_mem_cons.2 ⟨?_, ih⟩
      rw [others.index]
      obtain ⟨-, p, line, behind, -, made⟩ := exists_advance_of_next next
      obtain ⟨rfl, rfl⟩ := Prod.mk.inj made
      dsimp only [advance]
      omega

/-- A run of a program counts its actions at most, whatever the budget is. -/
theorem Makes.counted (makes : (start program world).Makes steps last) :
    last.index ≤ program.actionCount ∧ last.taken ≤ program.actionCount ∧
      ∀ step ∈ steps, step.index < program.actionCount := by
  have length := makes.length_le (hasMade_start program world) (Nat.zero_le _)
  have few := world.length_trace_le program
  have index : last.index = 0 + steps.length := makes.index
  have taken : last.taken ≤ 0 + steps.length := makes.taken_le
  refine ⟨by omega, by omega, ?_⟩
  intro step member
  have below := makes.index_lt step member
  omega

end Run

/-! ## From the source on -/

theorem Span.endCol_merge_le (a b : Span) : (a.merge b).endCol ≤ max a.endCol b.endCol := by
  unfold merge
  split
  · exact Nat.le_refl _
  · split
    · exact Nat.le_max_left _ _
    · exact Nat.le_max_right _ _

/-- An entry is not farther right than the text has characters. -/
theorem Entry.endCol_span_le {source : Source} {first : Token} {others : List Token}
    (inside : first :: others ⊆ source.tokens) :
    (span first others).endCol ≤ source.text.toList.length + 1 := by
  have last : (others.getLast?).getD first ∈ first :: others := by
    cases last : others.getLast? with
    | none => exact List.mem_cons_self
    | some token => exact List.mem_cons_of_mem _ (List.mem_of_getLast? last)
  have left := (Source.span_le_of_mem_tokens (inside List.mem_cons_self)).2.2
  have right := (Source.span_le_of_mem_tokens (inside last)).2.2
  exact (Span.endCol_merge_le _ _).trans (Nat.max_le.2 ⟨left, right⟩)

namespace Parsed

variable {source : Source}

theorem endCol_le_of_mem_remarks {remark : Remark} (h : remark ∈ remarks source) :
    remark.span.endCol ≤ source.text.toList.length + 1 := by
  obtain ⟨i, chars, -, there, points⟩ := exists_pointsAt_of_mem_remarks h
  have short := Source.length_le_of_mem_lines (List.mem_of_getElem? there)
  exact points.along.stop.trans (Nat.succ_le_succ short)

/-- Whether the lines and columns of a source can be counted in 32 bits: those of each place
that its scan comes by, those of its tokens, and the column behind whatever is cut out of it
or underlined in a report. -/
structure PlacesFit (source : Source) (mode : Mode) : Prop where
  passes : ∀ place, Scanner.Passes source.text.toList place →
    place.line < 2 ^ 32 ∧ place.col < 2 ^ 32 ∧
      Scanner.Passes source.text.toList place.scanToken.2
  tokens : ∀ token ∈ source.tokens, token.span.line < 2 ^ 32 ∧
    token.span.startCol < 2 ^ 32 ∧ token.span.endCol + 1 < 2 ^ 32
  entries : ∀ first others, first :: others ⊆ source.tokens →
    (Entry.span first others).endCol + 1 < 2 ^ 32
  remarks : ∀ remark ∈ remarks source, remark.span.endCol + 1 < 2 ^ 32
  findings : ∀ finding ∈ (ofSource source mode).findings.all, finding.span.endCol + 1 < 2 ^ 32

end Parsed

/-- Whether the actions of a program can be counted in 64 bits, with repetitions of fewer
than `length` actions, and no run counts beyond them. -/
structure Program.ActionsFit (length : Nat) (program : Program) : Prop where
  bodies : ∀ statement ∈ program.statements, ∀ count body,
    statement.command = .loop count body → body.length < length
  commands : ∀ statement ∈ program.statements, statement.command.actionCount < 2 ^ 64
  total : program.actionCount < 2 ^ 64
  runs : ∀ world steps last, (Run.start program world).Makes steps last →
    last.index ≤ program.actionCount ∧ last.taken ≤ program.actionCount ∧
      ∀ step ∈ steps, step.index < program.actionCount

namespace Parsed

variable {source : Source}

theorem placesFit (short : source.text.toList.length ≤ 2 ^ 32 - 3) (mode : Mode) :
    PlacesFit source mode where
  passes := by
    intro place here
    have line := here.line_le
    have col := here.col_le
    exact ⟨by omega, by omega, here.scanToken⟩
  tokens := by
    intro token member
    obtain ⟨line, order, stop⟩ := Source.span_le_of_mem_tokens member
    exact ⟨by omega, by omega, by omega⟩
  entries := by
    intro first others inside
    have stop := Entry.endCol_span_le inside
    omega
  remarks := by
    intro remark member
    have stop := endCol_le_of_mem_remarks member
    omega
  findings := by
    intro finding member
    obtain ⟨remark, recorded, rfl⟩ := exists_remark_of_mem_findings member
    have stop := endCol_le_of_mem_remarks recorded
    dsimp only [Finding.ofRemark]
    omega

theorem actionsFit (short : source.text.toList.length ≤ 2 ^ 32 - 3) :
    Program.ActionsFit source.text.toList.length ⟨kept source⟩ where
  bodies := by
    intro statement member count body repeats
    have named := named_lt_of_mem_kept member
    rwa [repeats] at named
  commands := by
    intro statement member
    have named := named_lt_of_mem_kept member
    have count := statement.command.actionCount_le
    omega
  total := by
    have named := named_kept_le source
    have count := Program.actionCount_le ⟨kept source⟩
    omega
  runs := fun _ _ _ makes => makes.counted

/-- Nothing that is counted from a source on leaves its word, if the source has at most
`2 ^ 32 - 3` characters: no line or column, no number of actions, and, whatever the world of a
run and its budget, neither the number of a step nor that of the actions performed. The
statements of the source have this property whether or not they make a program. -/
theorem counters_fit (source : Source) (mode : Mode)
    (short : source.text.toList.length ≤ 2 ^ 32 - 3) :
    PlacesFit source mode ∧
      Program.ActionsFit source.text.toList.length ⟨kept source⟩ ∧
      ∀ program, (ofSource source mode).program? = some program →
        program.ActionsFit source.text.toList.length := by
  refine ⟨placesFit short mode, actionsFit short, ?_⟩
  intro program accepted
  rw [eq_of_program? accepted]
  exact actionsFit short

/-- The greatest count there is, of a literal that lists two actions. -/
theorem counters_fit_reference :
    let source := Source.ofText Source.defaultName
      "repeat(4294967295, ['move(), turnLeft()']);\nmove();"
    let program : Program :=
      ⟨[⟨.loop 4294967295 [.move, .turn .left], ⟨1, 1, 43⟩⟩, ⟨.primitive .move, ⟨2, 1, 7⟩⟩]⟩
    source.text.toList.length ≤ 2 ^ 32 - 3 ∧ PlacesFit source .strict ∧
      (ofSource source .strict).program? = some program ∧
      program.ActionsFit source.text.toList.length := by
  intro source program
  have short : source.text.toList.length ≤ 2 ^ 32 - 3 := by decide +kernel
  have accepted : (ofSource source .strict).program? = some program := by decide +kernel
  obtain ⟨places, -, programs⟩ := counters_fit source .strict short
  exact ⟨short, places, accepted, programs program accepted⟩

end Parsed

end Rocket

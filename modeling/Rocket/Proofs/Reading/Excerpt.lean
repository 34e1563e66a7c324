import Rocket.Proofs.Reading.Fate
import Rocket.Proofs.Reading.Locality
import Rocket.Proofs.Token.Excerpt

/-!
# Statements cut out of a source

The span of a statement is exactly its text: what is in the columns of the span, as a
source of its own, is read as that statement and nothing else.

## Implementation notes

Cutting moves the tokens of a line and leaves their kinds, and a line is read by the kinds
of its tokens. The span of a statement goes from its first token to its last one, so that
it moves with them.
-/

namespace Rocket

/-! ## One line -/

namespace Line

variable {chars : List Char} {statement : Statement} {first last : Scanned}

/-- The statement of a line goes from its first token to its last one. -/
theorem exists_ends_of_statement? (own : statement? chars = some statement) :
    ∃ first last, (Scanned.ofLine 1 chars).head? = some first ∧
      (Scanned.ofLine 1 chars).getLast? = some last ∧
      statement.span = ⟨1, first.token.span.startCol, last.token.span.endCol⟩ := by
  obtain ⟨_, _, head, tail, span⟩ := isSpanOf_of_read own
  simp only [alone, ofChars, List.head?_map, List.getLast?_map] at head tail
  obtain ⟨first, firstHead, rfl⟩ := Option.map_eq_some_iff.1 head
  obtain ⟨last, lastTail, rfl⟩ := Option.map_eq_some_iff.1 tail
  exact ⟨first, last, firstHead, lastTail, span.trans (Scanned.merge_ends firstHead lastTail)⟩

/-- The statement of a line stands on the line. -/
theorem within_of_statement? (own : statement? chars = some statement) :
    1 ≤ statement.span.startCol ∧ statement.span.startCol ≤ statement.span.endCol ∧
      statement.span.endCol ≤ chars.length := by
  obtain ⟨first, last, head, tail, span⟩ := exists_ends_of_statement? own
  have firstOn := (Scanned.isOn_of_mem (List.mem_of_head? head)).1
  have lastOn := (Scanned.isOn_of_mem (List.mem_of_getLast? tail)).1
  have order := Scanned.startCol_le_of_head? head (List.mem_of_getLast? tail)
  rw [span]
  exact ⟨firstOn.start, order.trans lastOn.order, lastOn.stop⟩

/-- What is in the columns of a statement is read as that statement. -/
theorem statement?_slice (own : statement? chars = some statement) :
    statement? (statement.span.slice chars) =
      some ⟨statement.command, 1, 1, statement.span.endCol - statement.span.startCol + 1⟩ := by
  obtain ⟨first, last, head, tail, span⟩ := exists_ends_of_statement? own
  have kinds : SameKinds (alone chars).tokens (alone (statement.span.slice chars)).tokens := by
    have moved := congrArg (List.map (·.token.kind)) (Scanned.ofLine_slice head tail)
    rw [← span, List.map_map] at moved
    simp only [SameKinds, alone, ofChars, List.map_map]
    exact moved.symm
  have alike : Reading.Alike (fun statement other => statement.command = other.command)
      (read (.ofText "" "") (alone chars))
      (read (.ofText "" "") (alone (statement.span.slice chars))) :=
    alike_read (.refl _) kinds.akin
  have values := alike.values
  rw [← statement?, ← statement?, own] at values
  generalize cut : statement? (statement.span.slice chars) = other? at values
  cases values with
  | @some _ other command =>
      obtain ⟨first', last', head', tail', span'⟩ := exists_ends_of_statement? cut
      rw [span] at head' tail'
      obtain ⟨start, stop⟩ := Scanned.ends_slice head tail head' tail'
      rw [start, stop] at span'
      rw [span, command, ← span']

end Line

/-! ## Whole sources -/

/-- Whether a statement stands on a line of a source with the given characters, in the
columns of its span, and is what that line is read as. -/
structure Statement.StandsOn (source : Source) (chars : List Char) (statement : Statement) :
    Prop where
  line : ∃ i, statement.span.line = 1 + i ∧ source.lines[i]? = some chars
  start : 1 ≤ statement.span.startCol
  order : statement.span.startCol ≤ statement.span.endCol
  stop : statement.span.endCol ≤ chars.length
  read : (Line.read source (Parsed.lineOf source (chars, statement.span.line))).value? =
    some statement

namespace Parsed

variable {source : Source} {statement : Statement}

/-- A statement that is kept is the one of a line, at its place. -/
theorem exists_of_mem_kept (h : statement ∈ kept source) :
    ∃ i chars own, source.lines[i]? = some chars ∧ Line.statement? chars = some own ∧
      statement = own.down i ∧
      (Line.read source (lineOf source (chars, 1 + i))).value? = some statement := by
  rw [kept_eq_flatMap] at h
  obtain ⟨⟨chars, n⟩, numbered, read⟩ := List.mem_flatMap.1 h
  obtain ⟨i, rfl, there⟩ := exists_of_mem_zipIdx numbered
  have placed := Line.value?_read source (Line.isLineEnd_ending (1 + source.lines.length) (1 + i))
    i chars
  rw [Nat.add_comm i 1] at placed
  have value := Option.mem_toList.1 read
  obtain ⟨own, found, moved⟩ := Option.map_eq_some_iff.1 (placed.symm.trans value)
  exact ⟨i, chars, own, there, found, moved.symm, value⟩

/-- The span of a statement is exactly its text: each statement of a program stands on a
line of the source, and what is in its columns, as a source of its own, is read as a program
of this statement alone. -/
theorem statements_cut_out (source : Source) (name : String) :
    ∃ program, (ofSource source .permissive).program? = some program ∧
      ∀ statement ∈ program.statements, ∃ chars, statement.StandsOn source chars ∧
        (ofSource (.ofText name (String.ofList (statement.span.slice chars)))
          .permissive).program? =
            some ⟨[⟨statement.command,
              1, 1, statement.span.endCol - statement.span.startCol + 1⟩]⟩ := by
  refine ⟨⟨kept source⟩, by rw [program?_ofSource, if_neg nofun], ?_⟩
  intro statement member
  obtain ⟨i, chars, own, there, found, rfl, read⟩ := exists_of_mem_kept member
  obtain ⟨start, order, stop⟩ := Line.within_of_statement? found
  have line : (own.down i).span.line = 1 + i := by
    obtain ⟨first, last, -, -, span⟩ := Line.exists_ends_of_statement? found
    dsimp only [Statement.down, Span.down]
    rw [span]
  have free : '\n' ∉ own.span.slice chars := by
    intro newline
    have inLine := Source.newline_notMem_of_mem_lines (List.mem_of_getElem? there)
    exact inLine (List.mem_of_mem_drop (List.mem_of_mem_take newline))
  refine ⟨chars, ⟨⟨i, line, there⟩, start, order, stop, by rwa [line]⟩, ?_⟩
  have alone := kept_alone name free
  rw [Line.statement?_slice found] at alone
  rw [program?_ofSource, if_neg nofun]
  exact congrArg (fun statements => some (Program.mk statements)) alone

/-- Without the blanks in front and the comment behind, a literal of two kinds of quotes
still ends where it did. -/
example :
    ∀ p ∈ [("\t repeat(2, ['move()\", é]) ; // \"\r", 3), ("repeat(2, ['move()\", é]) ;", 1)],
      (ofSource (.ofText Source.defaultName p.1) .permissive).program? =
        some ⟨[⟨.loop 2 [.move], 1, p.2, p.2 + 25⟩]⟩ := by
  decide +kernel

end Parsed

end Rocket

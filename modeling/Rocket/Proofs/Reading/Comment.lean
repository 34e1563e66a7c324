import Mathlib
import Rocket.Proofs.Reading.Fate
import Rocket.Proofs.Reading.Kinds
import Rocket.Proofs.Reading.Locality
import Rocket.Proofs.Reading.Stray
import Rocket.Proofs.Token.Comment

/-!
# Comments and programs

A comment behind a line does not change what is read from a source: the program is the
same, with its statements at their places, and the same problems are found in the same
order. This holds of lines that are not understood as well.

## Implementation notes

A comment can only change a string literal that is not closed on its line. Such a literal is
the last token of the line, so that the line is no statement, and its text is not looked at.
-/

namespace Rocket

open Scanner (commented)

namespace Scanned.GoesOn

variable {found others : List Scanned}

theorem akin (h : GoesOn found others) : Akin (found.map (·.token)) (others.map (·.token)) := by
  induction h with
  | nil => exact .nil
  | cons scanned _ ih => exact .cons rfl ih
  | opened text text' place place' => exact .literal rfl rfl

/-- The problems with the tokens are the same. -/
theorem codes (h : GoesOn found others) :
    Remark.codes (found.filterMap remark?) = Remark.codes (others.filterMap remark?) := by
  induction h with
  | nil => rfl
  | cons scanned _ ih =>
      rw [List.filterMap_cons, List.filterMap_cons]
      split
      · exact ih
      · exact congrArg (_ :: ·) ih
  | opened text text' place place' => rfl

/-- The tokens are the same, or there is a string literal at the end. -/
theorem eq_or_quoted (h : GoesOn found others) :
    found = others ∨ ∃ last last' text text', found.getLast? = some last ∧
      others.getLast? = some last' ∧ last.token.kind = .quoted text ∧
        last'.token.kind = .quoted text' := by
  induction h with
  | nil => exact .inl rfl
  | cons scanned _ ih =>
      refine ih.imp (congrArg _) ?_
      rintro ⟨last, last', text, text', tail, tail', kinds⟩
      refine ⟨last, last', text, text', ?_, ?_, kinds⟩
      · rw [List.getLast?_cons, tail, Option.getD_some]
      · rw [List.getLast?_cons, tail', Option.getD_some]
  | opened text text' place place' =>
      exact .inr ⟨_, _, text, text', rfl, rfl, rfl, rfl⟩

end Scanned.GoesOn

/-! ## Lines -/

namespace Line

variable {source source' : Source} {line line' : Line} {comment chars : List Char}

/-- A statement ends with a semicolon. -/
theorem exists_semicolon_of_read {statement : Statement}
    (h : (read source line).value? = some statement) :
    ∃ last, line.tokens.getLast? = some last ∧ last.kind = .semicolon := by
  obtain ⟨tokens, stop⟩ := line
  cases tokens with
  | nil => cases h
  | cons first tokens =>
      obtain ⟨⟨command, _⟩, commanded, ended⟩ := Reading.value?_bind_eq_some_iff.1 h
      obtain ⟨⟨⟩, ends, -⟩ := Reading.value?_bind_eq_some_iff.1 ended
      obtain ⟨semicolon, rfl, closes⟩ := value?_readEnd.1 ends
      obtain ⟨used, rfl, -⟩ := exists_readCommand_append commanded
      exact ⟨semicolon, by rw [← List.cons_append, List.getLast?_concat], closes⟩

/-- A line with a string literal at its end is no statement. -/
theorem value?_read_of_quoted {last : Token} {text : String}
    (tail : line.tokens.getLast? = some last) (kind : last.kind = .quoted text) :
    (read source line).value? = none := by
  rw [Option.eq_none_iff_forall_ne_some]
  intro statement value
  obtain ⟨semicolon, tail', closes⟩ := exists_semicolon_of_read value
  obtain rfl := Option.some.inj (tail.symm.trans tail')
  rw [kind] at closes
  cases closes

/-- Lines of the same tokens are read as the same statement. -/
theorem value?_read_of_tokens (ended : line.stop.kind.isStray = line'.stop.kind.isStray)
    (same : line.tokens = line'.tokens) :
    (read source line).value? = (read source' line').value? := by
  have kinds : SameKinds line.tokens line'.tokens := by rw [same, SameKinds]
  have alike : Reading.Alike _ (read source line) (read source' line') :=
    alike_read ended kinds.akin
  have values := alike.values
  generalize value : (read source line).value? = value? at values ⊢
  generalize value' : (read source' line').value? = value?' at values ⊢
  cases values with
  | none => rfl
  | @some statement other command =>
      obtain ⟨first, last, head, tail, span⟩ := isSpanOf_of_read value
      obtain ⟨first', last', head', tail', span'⟩ := isSpanOf_of_read value'
      rw [same] at head tail
      obtain rfl := Option.some.inj (head.symm.trans head')
      obtain rfl := Option.some.inj (tail.symm.trans tail')
      have place : statement.span = other.span := by rw [span, span']
      obtain ⟨_, _⟩ := statement
      obtain ⟨_, _⟩ := other
      obtain rfl := command
      obtain rfl := place
      rfl

/-- The codes of what there is to remark on the tokens of a line, as the only line of a
source. -/
def readCodes (chars : List Char) : List Code :=
  Remark.codes (read (.ofText "" "") (alone chars)).remarks

/-- The codes of what there is to remark on the characters of a line. -/
def scanCodes (chars : List Char) : List Code :=
  Remark.codes (Scanned.lineRemarks 1 chars)

/-- Lines that are read as the same statement, with the same problems. -/
structure ReadsAs (chars other : List Char) : Prop where
  statement : statement? chars = statement? other
  readCodes : readCodes chars = readCodes other
  scanCodes : scanCodes chars = scanCodes other

/-- What is the same but for a string literal at its end is read the same. -/
theorem readsAs_of_goesOn {other : List Char}
    (h : Scanned.GoesOn (Scanned.ofLine 1 chars) (Scanned.ofLine 1 other)) :
    ReadsAs chars other where
  statement := by
    obtain same | ⟨last, last', text, text', tail, tail', kind, kind'⟩ := h.eq_or_quoted
    · have tokens : (alone chars).tokens = (alone other).tokens := by
        rw [alone, alone, ofChars, ofChars, same]
      exact value?_read_of_tokens rfl tokens
    · have ending : (alone chars).tokens.getLast? = some last.token := by
        rw [alone, ofChars, List.getLast?_map, tail, Option.map_some]
      have ending' : (alone other).tokens.getLast? = some last'.token := by
        rw [alone, ofChars, List.getLast?_map, tail', Option.map_some]
      rw [statement?, statement?, value?_read_of_quoted ending kind,
        value?_read_of_quoted ending' kind']
  readCodes := by
    have ended : (alone chars).stop.kind.isStray = (alone other).stop.kind.isStray := rfl
    exact (alike_read ended h.akin).codes
  scanCodes := h.codes

/-- A comment that brings no quote, or is put behind a line without literals that need one,
does not change what the line is read as. -/
theorem readsAs_commented {i : Nat}
    (harmless : (∀ c ∈ comment, Text.isQuote c = false) ∨
      ∀ token ∈ (Scanned.ofLine (1 + i) chars).map (·.token), token.IsClosed chars) :
    ReadsAs chars (commented comment chars) := by
  refine readsAs_of_goesOn (Scanned.goesOn_ofChars 1 1 0 chars (Nat.zero_le _)
    (harmless.imp_right fun closed scanned member text kind => ?_))
  have moved : scanned.down i ∈ Scanned.ofLine (1 + i) chars := by
    rw [Scanned.ofLine, Scanned.ofChars_down]
    exact List.mem_map_of_mem member
  exact Scanned.comesAgain_of_isClosed kind
    (closed (scanned.token.down i) (List.mem_map_of_mem moved))

end Line

/-! ## Whole sources -/

namespace Parsed

variable {source source' : Source}

/-- The statements of a source are determined by those of its lines. -/
theorem kept_eq_of_lines
    (h : source.lines.map Line.statement? = source'.lines.map Line.statement?) :
    kept source = kept source' := by
  have each (source : Source) :
      kept source = (source.lines.map Line.statement?).zipIdx.flatMap fun (own, i) =>
        own.toList.map (Statement.down i) := by
    rw [kept_eq_lines, List.zipIdx_map, List.flatMap_map]
    rfl
  rw [each, each, h]

/-- What is found on a numbered line is what is found on it as the only line. -/
theorem codes_lineOf {p : List Char × Nat} (h : p ∈ source.lines.zipIdx 1) :
    Remark.codes (Line.read source (lineOf source p)).remarks = Line.readCodes p.1 ∧
      Remark.codes (Scanned.lineRemarks p.2 p.1) = Line.scanCodes p.1 := by
  obtain ⟨chars, n⟩ := p
  obtain ⟨i, rfl, there⟩ := exists_of_mem_zipIdx h
  constructor
  · have ended := Line.isLineEnd_ending (1 + source.lines.length) (i + 1)
    rw [Nat.add_comm 1 i]
    exact (Line.alike_alone source ended i chars).codes.symm
  · exact Scanned.codes_lineRemarks_down i 1 chars

/-- The problems that are found in a source are those of its lines. What is read comes
before the characters. -/
theorem codes_remarks (source : Source) :
    Remark.codes (remarks source) =
      (source.lines.map Line.readCodes).flatten ++ (source.lines.map Line.scanCodes).flatten := by
  have numbered {f : List Char × Nat → List Remark} {g : List Char → List Code}
      (each : ∀ p ∈ source.lines.zipIdx 1, Remark.codes (f p) = g p.1) :
      Remark.codes ((source.lines.zipIdx 1).flatMap f) = (source.lines.map g).flatten := by
    calc Remark.codes ((source.lines.zipIdx 1).flatMap f)
        = (source.lines.zipIdx 1).flatMap fun p => Remark.codes (f p) := List.map_flatMap
      _ = (source.lines.zipIdx 1).flatMap fun p => g p.1 := List.flatMap_congr each
      _ = (((source.lines.zipIdx 1).map Prod.fst).map g).flatten := by
        rw [List.map_map, List.flatMap_def]
        rfl
      _ = (source.lines.map g).flatten := by rw [List.zipIdx_map_fst]
  rw [remarks_eq_flatMap, Remark.codes_append, numbered fun p member => (codes_lineOf member).1,
    numbered fun p member => (codes_lineOf member).2]

/-- What is found in two sources is found in the same order if it is on each line. -/
theorem codes_remarks_eq_of_lines
    (read : source.lines.map Line.readCodes = source'.lines.map Line.readCodes)
    (scan : source.lines.map Line.scanCodes = source'.lines.map Line.scanCodes) :
    Remark.codes (remarks source) = Remark.codes (remarks source') := by
  rw [codes_remarks, codes_remarks, read, scan]

/-- Sources of the same statements and problems have the same program in either mode. -/
theorem program?_eq_of_kept (statements : kept source = kept source')
    (codes : Remark.codes (remarks source) = Remark.codes (remarks source')) (mode : Mode) :
    (ofSource source mode).program? = (ofSource source' mode).program? := by
  have count := congrArg List.length codes
  rw [Remark.codes, Remark.codes, List.length_map, List.length_map] at count
  have silent : remarks source ≠ [] ↔ remarks source' ≠ [] := by
    rw [← List.length_pos_iff, ← List.length_pos_iff, count]
  rw [program?_ofSource, program?_ofSource, statements]
  simp only [silent]

end Parsed

/-- The source with a comment put behind line `i`, counted from zero. -/
def Source.withComment (source : Source) (i : Nat) (comment : List Char) : Source :=
  .ofText source.name
    (String.ofList (['\n'].intercalate (source.lines.modify i (commented comment))))

section WithComment

variable {source : Source} {i : Nat} {line comment : List Char}
  (there : source.lines[i]? = some line)

/-- A comment without newlines makes one line longer and leaves the others. -/
theorem Source.lines_withComment (inLine : '\n' ∉ comment) :
    (source.withComment i comment).lines = source.lines.modify i (commented comment) := by
  have free : ∀ chars ∈ source.lines.modify i (commented comment), '\n' ∉ chars := by
    intro chars member
    obtain ⟨j, found⟩ := List.mem_iff_getElem?.1 member
    rw [List.getElem?_modify] at found
    obtain ⟨own, old, rfl⟩ := Option.map_eq_some_iff.1 found
    have clear := newline_notMem_of_mem_lines (List.mem_of_getElem? old)
    split
    · simpa [commented, clear] using inLine
    · exact clear
  have nonempty : source.lines.modify i (commented comment) ≠ [] := by
    rw [← List.length_pos_iff, List.length_modify, List.length_pos_iff]
    exact source.lines_ne_nil
  rw [withComment, lines_ofText, String.toList_ofList, List.splitOn_intercalate _ free nonempty]

include there

/-- What a comment does not change about its line is not changed anywhere. -/
theorem Source.map_lines_modify {α : Type} {g : List Char → α}
    (same : g line = g (commented comment line)) :
    source.lines.map g = (source.lines.modify i (commented comment)).map g := by
  apply List.ext_getElem?
  intro j
  rw [List.getElem?_map, List.getElem?_map, List.getElem?_modify]
  by_cases here : i = j
  · subst here
    simpa [there] using same
  · simp [here]

/-- A comment behind a line changes neither the program, nor where its statements stand, nor
which problems are found. The comment brings no quote, or the string literals of the line
are closed by quotes of their own kinds. -/
theorem Parsed.ofSource_withComment (inLine : '\n' ∉ comment)
    (harmless : (∀ c ∈ comment, Text.isQuote c = false) ∨
      ∀ token ∈ source.tokensOf (1 + i), token.IsClosed line) (mode : Mode) :
    (ofSource (source.withComment i comment) mode).program? = (ofSource source mode).program? ∧
      Remark.codes (remarks (source.withComment i comment)) = Remark.codes (remarks source) ∧
      (ofSource (source.withComment i comment) mode).findings.SameCodes
        (ofSource source mode).findings := by
  rw [tokensOf_eq there] at harmless
  have lines : (source.withComment i comment).lines = _ := Source.lines_withComment inLine
  obtain ⟨statement, readCodes, scanCodes⟩ := Line.readsAs_commented harmless
  have statements : kept (source.withComment i comment) = kept source := by
    apply kept_eq_of_lines
    rw [lines, Source.map_lines_modify there statement]
  have codes : Remark.codes (remarks (source.withComment i comment)) =
      Remark.codes (remarks source) := by
    apply codes_remarks_eq_of_lines
    · rw [lines, Source.map_lines_modify there readCodes]
    · rw [lines, Source.map_lines_modify there scanCodes]
  refine ⟨program?_eq_of_kept statements codes mode, codes, ?_⟩
  rw [findings_ofSource, findings_ofSource]
  exact Findings.sameCodes_ofRemarks _ _ mode codes

end WithComment

/-- A comment with a quote in it, behind a line with a literal that is closed. -/
theorem Parsed.ofSource_withComment_reference :
    let source := Source.ofText "star.pilot" "move(;\nrepeat(2, [\"move()\"]);"
    let line := "repeat(2, [\"move()\"]);".toList
    let comment := " isn't \"far\"".toList
    let changed := source.withComment 1 comment
    source.lines[1]? = some line ∧ '\n' ∉ comment ∧
      (∀ token ∈ source.tokensOf (1 + 1), token.IsClosed line) ∧
      changed.text = "move(;\nrepeat(2, [\"move()\"]); // isn't \"far\"" ∧
      (ofSource changed .permissive).program? =
        some ⟨[⟨.loop 2 [.move], ⟨2, 1, 22⟩⟩]⟩ ∧
      (ofSource changed .strict).findings.errors.map (·.code) = [.unexpectedToken] := by
  intro source line comment changed
  have there : source.lines[1]? = some line := by decide +kernel
  have inLine : '\n' ∉ comment := by decide +kernel
  have closed : ∀ token ∈ source.tokensOf (1 + 1), token.IsClosed line := by
    have tokens : ∀ token ∈ source.tokensOf (1 + 1),
        token = ⟨.quoted "move()", ⟨2, 12, 19⟩⟩ ∨
          token.kind ∈ [.loop, .openParen, .digits "2", .comma, .openBracket, .closeBracket,
            .closeParen, .semicolon] := by
      decide +kernel
    intro token member text kind
    obtain rfl | other := tokens token member
    · cases kind
      exact ⟨'"', rfl, by decide +kernel⟩
    · simp [kind] at other
  obtain ⟨program, -, -⟩ := ofSource_withComment there inLine (.inr closed) .permissive
  obtain ⟨-, -, codes⟩ := ofSource_withComment there inLine (.inr closed) .strict
  refine ⟨there, inLine, closed, by decide +kernel, ?_, ?_⟩
  · rw [program]
    decide +kernel
  · rw [codes.errors]
    decide +kernel

end Rocket

import Rocket.Proofs.Finding.Report
import Rocket.Proofs.Reading.Fate
import Rocket.Proofs.Reading.Origin
import Rocket.Proofs.Text.Trim
import Rocket.Proofs.Token.Coverage

/-!
# Where findings point

Every finding is about columns of a line of its source, and its report underlines what is
written there. Where the message is that a character or a word is not known, it names what
is underlined.

## Implementation notes

A line that ends in carriage returns is quoted without them, though they are columns of the
line. A span may reach over them, and one column farther: the token that ends a line has a
place of its own. Its carets go on behind the quoted text there, so what is covered is more
than what is underlined.
-/

namespace Rocket

open Token (Kind)

/-! ## Remarks on a line -/

/-- Whether a span covers columns of a line with the given characters, where the line has one
column more than characters. -/
structure Span.IsAlong (chars : List Char) (span : Span) : Prop where
  start : 1 ≤ span.startCol
  order : span.startCol ≤ span.endCol
  stop : span.endCol ≤ chars.length + 1

/-- Spans along a line cover nothing else together. -/
theorem Span.IsAlong.merge {chars : List Char} {a b : Span} (first : a.IsAlong chars)
    (second : b.IsAlong chars) : (a.merge b).IsAlong chars := by
  unfold Span.merge
  split
  · exact ⟨Nat.le_min.2 ⟨first.start, second.start⟩,
      (Nat.min_le_left _ _).trans (first.order.trans (Nat.le_max_left _ _)),
      Nat.max_le.2 ⟨first.stop, second.stop⟩⟩
  · split
    · exact first
    · exact second

/-- The text that is not known, if that is the problem. -/
def Problem.named? : Problem → Option (List Char)
  | .strayCharacter c => some [c]
  | .unknownCommand name => some name.toList
  | _ => none

/-- Whether a remark is on columns of a line with the given characters, and on just what its
message names. -/
structure Remark.PointsAt (chars : List Char) (remark : Remark) : Prop where
  along : remark.span.IsAlong chars
  named : ∀ text, remark.problem.named? = some text →
    remark.span.slice chars = text ∧ '\r' ∉ text

section Tokens

variable {chars : List Char} {token : Token} {problem : Problem}

theorem Token.IsOn.along (on : token.IsOn chars) : token.span.IsAlong chars :=
  ⟨on.start, on.order, Nat.le_succ_of_le on.stop⟩

/-- A problem with a token is on what the token is written as. -/
theorem Token.IsOn.pointsAt (on : token.IsOn chars) (concerns : problem.Concerns token.kind) :
    Remark.PointsAt chars ⟨problem, token.span⟩ where
  along := on.along
  named := by
    intro text named
    obtain ⟨kind, span⟩ := token
    have lexeme := on.lexeme
    cases problem with
    | strayCharacter c =>
        obtain rfl : kind = .stray c := concerns
        obtain rfl := Option.some.inj named
        obtain ⟨slice, foreign⟩ := lexeme
        refine ⟨slice, fun blank => ?_⟩
        obtain rfl := List.mem_singleton.1 blank
        exact foreign.gap (by decide)
    | unknownCommand name =>
        obtain rfl : kind = .word name := concerns
        obtain rfl := Option.some.inj named
        obtain ⟨⟨-, c, run, spelled, first, others⟩, slice, -⟩ := lexeme
        refine ⟨slice, fun blank => ?_⟩
        rw [spelled] at blank
        obtain rfl | later := List.mem_cons.1 blank
        · exact absurd first (by decide)
        · exact absurd (others _ later) (by decide)
    | _ => cases named

theorem Problem.eq_strayCharacter (h : problem.code = .strayCharacter) :
    ∃ c, problem = .strayCharacter c := by
  cases problem with
  | strayCharacter c => exact ⟨c, rfl⟩
  | _ => cases h

theorem Problem.eq_unknownCommand (h : problem.code = .unknownCommand) :
    ∃ name, problem = .unknownCommand name := by
  cases problem with
  | unknownCommand name => exact ⟨name, rfl⟩
  | _ => cases h

end Tokens

/-- A problem with the token that ends a line names nothing. -/
theorem Problem.named?_eq_none {problem : Problem} {kind : Kind}
    (last : kind.isLineEnd = true) (concerns : problem.Concerns kind) : problem.named? = none := by
  cases problem with
  | strayCharacter c =>
      obtain rfl := concerns
      cases last
  | unknownCommand name =>
      obtain rfl := concerns
      cases last
  | _ => rfl

/-- An entry is along the line that its tokens are along. -/
theorem Entry.along_span {chars : List Char} {first : Token} {others : List Token}
    (all : ∀ token ∈ first :: others, token.span.IsAlong chars) :
    (span first others).IsAlong chars := by
  have start := all first List.mem_cons_self
  refine start.merge ?_
  cases last : others.getLast? with
  | none => exact start
  | some token => exact all token (List.mem_cons_of_mem _ (List.mem_of_getLast? last))

/-- What is wrong with a token is a problem with its kind. -/
theorem Token.Kind.concerns_of_flaw? {kind : Kind} {text : List Char} {problem : Problem}
    (flaw : kind.flaw? text = some problem) : problem.Concerns kind := by
  unfold Kind.flaw? at flaw
  split at flaw
  · obtain rfl := Option.some.inj flaw
    rfl
  next content =>
    split at flaw
    · obtain rfl := Option.some.inj flaw
      exact ⟨content, rfl⟩
    · cases flaw
  · cases flaw

namespace Scanned

variable {n : Nat} {chars : List Char} {remark : Remark}

/-- A remark on the characters of a line points at them. -/
theorem pointsAt_of_mem_lineRemarks (h : remark ∈ lineRemarks n chars) :
    remark.PointsAt chars := by
  obtain ⟨scanned, member, found⟩ := List.mem_filterMap.1 h
  obtain ⟨problem, problem?, rfl⟩ := Option.map_eq_some_iff.1 found
  obtain ⟨on, flaw⟩ := isOn_of_mem member
  exact on.pointsAt (Kind.concerns_of_flaw? (flaw.symm.trans problem?))

end Scanned

namespace Line

variable {source : Source} {ending : Kind} {n : Nat} {chars : List Char} {token : Token}
  {remark : Remark}

/-- The tokens of a line stand on it, but for the one that ends it. -/
theorem isOn_or_stop_of_mem (h : token ∈ (ofChars ending n chars).allTokens) :
    token.IsOn chars ∨ token = ⟨ending, .point n (chars.length + 1)⟩ := by
  obtain inside | last := List.mem_append.1 h
  · obtain ⟨scanned, member, rfl⟩ := List.mem_map.1 inside
    exact .inl (Scanned.isOn_of_mem member).1
  · exact .inr (List.mem_singleton.1 last)

theorem along_of_mem (h : token ∈ (ofChars ending n chars).allTokens) :
    token.span.IsAlong chars := by
  obtain on | rfl := isOn_or_stop_of_mem h
  · exact on.along
  · exact ⟨Nat.le_add_left 1 _, Nat.le_refl _, Nat.le_refl _⟩

/-- A remark on the tokens of a line points at them, or at the end of the line. -/
theorem pointsAt_of_mem_read (last : ending.isLineEnd = true)
    (h : remark ∈ (read source (ofChars ending n chars)).remarks) : remark.PointsAt chars := by
  obtain arises | ⟨token, member, rfl⟩ := arises_or_trailing_of_mem_read h
  · cases arises with
    | token member _ concerns =>
        obtain on | rfl := isOn_or_stop_of_mem member
        · exact on.pointsAt concerns
        · refine ⟨along_of_mem member, fun text named => ?_⟩
          rw [Problem.named?_eq_none last concerns] at named
          cases named
    | @entry problem first others inside _ left =>
        refine ⟨?_, fun text named => ?_⟩
        · exact Entry.along_span fun token member => along_of_mem (inside member)
        · obtain rfl | rfl := left
          · cases named
          · cases named
  · refine ⟨along_of_mem (List.mem_append_left _ member), fun text named => ?_⟩
    cases named

end Line

/-! ## Findings about a source -/

/-- A line is what is quoted of it, and carriage returns behind that. -/
theorem Text.exists_trimEnd_append_replicate (c : Char) (chars : List Char) :
    ∃ k, chars = trimEnd (· = c) chars ++ List.replicate k c := by
  obtain ⟨back, split, all⟩ := exists_trimEnd_append (· = c) chars
  have run : back = List.replicate back.length c :=
    List.eq_replicate_iff.2 ⟨rfl, fun d member => of_decide_eq_true (all d member)⟩
  exact ⟨back.length, run ▸ split⟩

/-- How many characters a span covers of a line behind the first `quoted` ones. -/
def Span.over (span : Span) (quoted : Nat) (chars : List Char) : Nat :=
  min span.endCol chars.length - max (span.startCol - 1) quoted

namespace Source

variable {source : Source} {span : Span} {i : Nat} {chars : List Char}

theorem line?_eq_some (there : source.lines[i]? = some chars) :
    source.line? (1 + i) = some (Text.trimEnd (· = '\r') chars) := by
  rw [Nat.add_comm, line?_succ, there, Option.map_some]

theorem newline_notMem_quote (there : source.lines[i]? = some chars) :
    '\n' ∉ source.quote (1 + i) := by
  obtain ⟨k, split⟩ := Text.exists_trimEnd_append_replicate '\r' chars
  have inLine := newline_notMem_of_mem_lines (List.mem_of_getElem? there)
  rw [quote, line?_eq_some there, Option.getD_some]
  intro newline
  rw [split] at inLine
  exact inLine (List.mem_append_left _ newline)

/-- What a span covers of a line is what is cut out of the quoted line, and the carriage
returns that it covers behind the quoted line. -/
theorem slice_eq (line : span.line = 1 + i) (there : source.lines[i]? = some chars)
    (start : 1 ≤ span.startCol) :
    span.slice chars =
      source.cut span ++ List.replicate (span.over (source.quote span.line).length chars) '\r' := by
  obtain ⟨k, split⟩ := Text.exists_trimEnd_append_replicate '\r' chars
  rw [cut, quote, line, line?_eq_some there, Option.getD_some, Span.slice]
  generalize Text.trimEnd (· = '\r') chars = quoted at split
  subst split
  have count : min (span.width - (quoted.drop (span.startCol - 1)).length)
        (k - (span.startCol - 1 - quoted.length)) =
      span.over quoted.length (quoted ++ List.replicate k '\r') := by
    simp only [Span.over, Span.width, List.length_drop, List.length_append, List.length_replicate]
    omega
  rw [List.drop_append, List.take_append, List.drop_replicate, List.take_replicate, count]

end Source

/-- Whether a finding points at a line of its source with the given characters, and its
report underlines what the finding is about: all that its span covers, but for carriage
returns at the end of the line, which are not quoted. -/
structure Finding.PointsAt (source : Source) (mode : Mode) (chars : List Char)
    (finding : Finding) : Prop where
  file : finding.file = source.name
  severity : finding.severity = mode.severity
  category : finding.category = finding.code.category
  line : 1 ≤ finding.span.line ∧ finding.span.line ≤ source.lineCount
  text : source.lines[finding.span.line - 1]? = some chars
  along : finding.span.IsAlong chars
  quoted : source.line? finding.span.line = some finding.sourceLine.toList
  report : finding.IsUnderlined
  underlined : finding.underlined = source.cut finding.span
  covered : finding.span.slice chars = finding.underlined ++
    List.replicate (finding.span.over finding.sourceLine.length chars) '\r'
  stray : finding.code = .strayCharacter → ∃ c, finding.underlined = [c] ∧
    finding.message = "unexpected character '" ++ String.singleton c ++ "'"
  word : finding.code = .unknownCommand → ∃ name : String, finding.underlined = name.toList ∧
    finding.message = "unknown command '" ++ name ++ "'"

namespace Finding

variable {source : Source} {remark : Remark} (mode : Mode)

/-- A finding quotes the line it is about. -/
theorem line?_ofRemark {i : Nat} {chars : List Char} (line : remark.span.line = 1 + i)
    (there : source.lines[i]? = some chars) :
    source.line? remark.span.line =
      some (ofRemark source mode remark).sourceLine.toList := by
  have quoted := Source.line?_eq_some there
  rw [← line] at quoted
  rw [ofRemark, String.toList_ofList, Source.quote, quoted, Option.getD_some]

/-- What the report on a finding underlines is what its span cuts out of the quoted line. -/
theorem underlined_ofRemark (order : remark.span.startCol ≤ remark.span.endCol) :
    (ofRemark source mode remark).underlined = source.cut remark.span := by
  have width : max 1 remark.span.width = remark.span.width := by
    rw [Span.width]
    omega
  rw [underlined_eq]
  dsimp only [ofRemark]
  rw [String.toList_ofList, width, Source.cut]

section Line

variable {i : Nat} {chars : List Char} (line : remark.span.line = 1 + i)
  (there : source.lines[i]? = some chars)
include line there

/-- What is underlined is what the span covers, but for carriage returns. -/
theorem covered_ofRemark (along : remark.span.IsAlong chars) :
    remark.span.slice chars = (ofRemark source mode remark).underlined ++ List.replicate
      (remark.span.over (ofRemark source mode remark).sourceLine.length chars) '\r' := by
  have width : (ofRemark source mode remark).sourceLine.length =
      (source.quote remark.span.line).length := by
    rw [ofRemark, String.length_ofList]
  rw [underlined_ofRemark mode along.order, width]
  exact Source.slice_eq line there along.start

/-- What a message names is what is underlined. -/
theorem underlined_of_named {text : List Char} (points : remark.PointsAt chars)
    (named : remark.problem.named? = some text) :
    (ofRemark source mode remark).underlined = text := by
  have covered := covered_ofRemark mode line there points.along
  obtain ⟨rfl, free⟩ := points.named text named
  generalize remark.span.over (ofRemark source mode remark).sourceLine.length chars = k at covered
  rw [covered] at free ⊢
  cases k with
  | zero => rw [List.replicate_zero, List.append_nil]
  | succ k => simp [List.replicate_succ] at free

/-- The report on a remark underlines what the remark points at. -/
theorem isUnderlined_ofRemark (points : remark.PointsAt chars) :
    (ofRemark source mode remark).IsUnderlined := by
  have free : '\n' ∉ (ofRemark source mode remark).sourceLine.toList := by
    dsimp only [ofRemark]
    rw [String.toList_ofList, line]
    exact Source.newline_notMem_quote there
  exact isUnderlined _ free points.along.order

/-- A finding points at the text that its remark points at. -/
theorem pointsAt_ofRemark (points : remark.PointsAt chars) :
    (ofRemark source mode remark).PointsAt source mode chars where
  file := rfl
  severity := rfl
  category := rfl
  line := by
    have inside : i < source.lines.length := (List.getElem?_eq_some_iff.1 there).1
    dsimp only [ofRemark, Source.lineCount]
    omega
  text := by
    dsimp only [ofRemark]
    rwa [line, Nat.add_sub_cancel_left]
  along := points.along
  quoted := line?_ofRemark mode line there
  report := isUnderlined_ofRemark mode line there points
  underlined := underlined_ofRemark mode points.along.order
  covered := covered_ofRemark mode line there points.along
  stray := by
    intro code
    obtain ⟨c, stray⟩ := Problem.eq_strayCharacter code
    refine ⟨c, underlined_of_named mode line there points (by rw [stray]; rfl), ?_⟩
    dsimp only [ofRemark]
    rw [stray]
    rfl
  word := by
    intro code
    obtain ⟨name, word⟩ := Problem.eq_unknownCommand code
    refine ⟨name, underlined_of_named mode line there points (by rw [word]; rfl), ?_⟩
    dsimp only [ofRemark]
    rw [word]
    rfl

end Line

end Finding

namespace Parsed

variable {source : Source}

/-- Every remark on a source points at one of its lines. -/
theorem exists_pointsAt_of_mem_remarks {remark : Remark} (h : remark ∈ remarks source) :
    ∃ i chars, remark.span.line = 1 + i ∧ source.lines[i]? = some chars ∧
      remark.PointsAt chars := by
  obtain ⟨i, chars, there, line, read | scanned⟩ := exists_line_of_mem_remarks h
  · have last := Line.isLineEnd_ending (1 + source.lines.length) (1 + i)
    exact ⟨i, chars, line, there, Line.pointsAt_of_mem_read last read⟩
  · exact ⟨i, chars, line, there, Scanned.pointsAt_of_mem_lineRemarks scanned⟩

/-- Every finding points at text of its source, and its report underlines that text, but for
the carriage returns that the quoted line leaves out. -/
theorem findings_point_at_text (source : Source) (mode : Mode) :
    ∀ finding ∈ (ofSource source mode).findings.all, ∃ chars,
      finding.PointsAt source mode chars := by
  intro finding kept
  obtain ⟨remark, member, rfl⟩ := exists_remark_of_mem_findings kept
  obtain ⟨i, chars, line, there, points⟩ := exists_pointsAt_of_mem_remarks member
  exact ⟨chars, Finding.pointsAt_ofRemark mode line there points⟩

/-- A literal that is not closed covers the carriage return at the end of its line, which is
not there to be underlined. -/
theorem findings_point_at_text_reference :
    let source := Source.ofText Source.defaultName "  flÿ();\nmove()\r\n'é\r\n"
    let findings := (ofSource source .strict).findings.all
    let literal : Finding := .ofRemark source .strict ⟨.unterminatedString, ⟨3, 1, 3⟩⟩
    literal ∈ findings ∧ (∃ chars, literal.PointsAt source .strict chars) ∧
      findings.map (fun finding => (finding.span, finding.underlined)) =
        [(⟨1, 3, 4⟩, ['f', 'l']), (.point 2 6, [')']), (⟨3, 1, 3⟩, ['\'', 'é']),
          (.point 1 5, ['ÿ']), (⟨3, 1, 3⟩, ['\'', 'é'])] := by
  intro source findings literal
  have kept : literal ∈ findings := by decide +kernel
  exact ⟨kept, findings_point_at_text source .strict literal kept, by decide +kernel⟩

/-- What is underlined is not always all that is covered. -/
theorem not_all_covered_underlined :
    ¬ ∀ source mode, source.text.toList.length < 2 ^ 32 - 2 →
      ∀ finding ∈ (ofSource source mode).findings.all,
        ∀ chars ∈ source.lines[finding.span.line - 1]?,
          finding.underlined = finding.span.slice chars := by
  intro all
  have short : (Source.ofText Source.defaultName "'é\r\n").text.toList.length < 2 ^ 32 - 2 := by
    decide
  have differs : ∃ finding ∈
        (ofSource (.ofText Source.defaultName "'é\r\n") .permissive).findings.all,
      ∃ chars ∈ (Source.ofText Source.defaultName "'é\r\n").lines[finding.span.line - 1]?,
        finding.underlined ≠ finding.span.slice chars := by
    decide +kernel
  obtain ⟨finding, kept, chars, there, differs⟩ := differs
  exact differs (all _ _ short finding kept chars there)

end Parsed

end Rocket

import Mathlib.Data.List.Forall2
import Rocket.Proofs.Reading.Alike
import Rocket.Proofs.Reading.Recovery

/-!
# What the kinds of tokens decide

Which commands a token list is read as, and which problems are found in it, depends on the
kinds of its tokens alone. Where the tokens are said to stand and the source that is quoted
only show in the texts and places of the findings.

## Implementation notes

Token lists of the same kinds fall into lines at the same tokens. These lines are read alike
one by one, and so are the lists.
-/

namespace Rocket

/-! ## Findings of the same codes -/

/-- Collections of findings that are as many, and kept with the same codes in the same
order. -/
structure Findings.SameCodes (fs gs : Findings) : Prop where
  errors : fs.errors.map (·.code) = gs.errors.map (·.code)
  warnings : fs.warnings.map (·.code) = gs.warnings.map (·.code)
  totalErrors : fs.totalErrors = gs.totalErrors
  totalWarnings : fs.totalWarnings = gs.totalWarnings

/-- The codes of the findings that are kept are the first codes of the remarks. -/
theorem Findings.map_code_ofRemark (source : Source) (mode : Mode) (remarks : List Remark) :
    ((remarks.take capacity).map (Finding.ofRemark source mode)).map (·.code) =
      (Remark.codes remarks).take capacity := by
  rw [Remark.codes, List.map_map, ← List.map_take]
  rfl

theorem Findings.sameCodes_ofRemarks (source source' : Source) (mode : Mode)
    {front back : List Remark} (h : Remark.codes front = Remark.codes back) :
    (ofRemarks source mode front).SameCodes (ofRemarks source' mode back) := by
  have kept := congrArg (List.take capacity) h
  rw [← map_code_ofRemark source mode, ← map_code_ofRemark source' mode] at kept
  have count := congrArg List.length h
  rw [Remark.codes, Remark.codes, List.length_map, List.length_map] at count
  cases mode with
  | permissive => exact ⟨rfl, kept, rfl, count⟩
  | strict => exact ⟨kept, rfl, count, rfl⟩

/-! ## Lines -/

namespace Line

/-- Lines of tokens of the same kinds, ended by tokens of the same kind. -/
structure SameLine (line other : Line) : Prop where
  tokens : SameKinds line.tokens other.tokens
  stop : line.stop.kind = other.stop.kind

/-- The kinds of tokens decide where lines end. -/
theorem sameLine_ofTokens {tokens others : List Token} (h : SameKinds tokens others) :
    List.Forall₂ SameLine (ofTokens tokens) (ofTokens others) := by
  induction tokens generalizing others with
  | nil =>
      obtain rfl := h.nil_left
      exact .cons ⟨rfl, rfl⟩ .nil
  | cons token tokens ih =>
      obtain ⟨other, rest, rfl, kind, tail⟩ := h.cons_left
      rw [ofTokens, ofTokens, kind]
      split
      · exact .cons ⟨rfl, kind.symm⟩ .nil
      · exact .cons ⟨rfl, kind.symm⟩ (ih tail)
      · -- the token belongs to the first of the lines below
        have below := ih tail
        generalize ofTokens tokens = lines at below ⊢
        generalize ofTokens rest = others at below ⊢
        cases below with
        | nil => exact .nil
        | cons first below => exact .cons ⟨first.tokens.cons kind, first.stop⟩ below

/-- Lists of lines that are read alike one by one are read alike as a whole. -/
theorem alike_readLines {S : Statement → Statement → Prop} {source source' : Source}
    {lines others : List Line}
    (h : List.Forall₂ (fun line other => Reading.Alike S (read source line) (read source' other))
      lines others) :
    Reading.Alike (List.Forall₂ S) (readLines source lines) (readLines source' others) := by
  induction h with
  | nil => exact Reading.alike_pure .nil
  | cons first _ ih =>
      refine (Reading.alike_tell first.codes first.values).bind fun _ _ statement => ?_
      refine ih.bind fun _ _ below => ?_
      apply Reading.alike_pure
      cases statement with
      | none => exact below
      | some related => exact .cons related below

end Line

/-! ## Token lists -/

/-- An end of input is seen by its kind. -/
theorem SameKinds.hasEnd {tokens others : List Token} (h : SameKinds tokens others)
    (ends : HasEnd tokens) : HasEnd others := by
  obtain ⟨token, member, last⟩ := ends
  have kind : Token.Kind.endOfInput ∈ others.map (·.kind) := by
    rw [← h, ← last]
    exact List.mem_map_of_mem member
  exact List.mem_map.1 kind

namespace Parsed

/-- Token lists of the same kinds are read alike, as statements of the same commands. -/
theorem alike_reading (source source' : Source) {tokens others : List Token}
    (kinds : SameKinds tokens others) (ends : HasEnd tokens) :
    Reading.Alike (List.Forall₂ fun statement other => statement.command = other.command)
      (reading source tokens) (reading source' others) := by
  rw [reading_eq source ends, reading_eq source' (kinds.hasEnd ends)]
  apply Line.alike_readLines
  refine (Line.sameLine_ofTokens kinds).imp fun line other same => ?_
  exact Line.alike_read (by rw [same.stop]) same.tokens.akin

/-- Statements of the same commands, one by one, make programs of the same commands. -/
theorem commands_eq {statements others : List Statement}
    (h : List.Forall₂ (fun statement other => statement.command = other.command)
      statements others) :
    Program.commands ⟨statements⟩ = Program.commands ⟨others⟩ := by
  induction h with
  | nil => rfl
  | cons same _ ih => exact congrArg₂ List.cons same ih

/-- Readings that are alike come to the same commands and the same codes. -/
theorem ofFindings_of_alike {source source' : Source} (mode : Mode)
    {r s : Reading (List Statement)}
    (h : Reading.Alike (List.Forall₂ fun statement other => statement.command = other.command)
      r s) :
    let parsed := ofFindings ⟨r.value?.getD []⟩ (.ofRemarks source mode r.remarks)
    let other := ofFindings ⟨s.value?.getD []⟩ (.ofRemarks source' mode s.remarks)
    parsed.program?.map Program.commands = other.program?.map Program.commands ∧
      parsed.findings.SameCodes other.findings := by
  intro parsed other
  have codes := Findings.sameCodes_ofRemarks source source' mode h.codes
  have refused : (Findings.ofRemarks source mode r.remarks).hasErrors =
      (Findings.ofRemarks source' mode s.remarks).hasErrors := by
    rw [Findings.hasErrors, Findings.hasErrors, codes.totalErrors]
  have commands : Program.commands ⟨r.value?.getD []⟩ = Program.commands ⟨s.value?.getD []⟩ := by
    obtain ⟨_, values⟩ := h
    generalize r.value? = value? at values
    generalize s.value? = value?' at values
    cases values with
    | none => rfl
    | some related => exact commands_eq related
  refine ⟨?_, codes⟩
  change Option.map _ (ite _ _ _) = Option.map _ (ite _ _ _)
  rw [refused]
  split
  · rfl
  · exact congrArg some commands

/-- What is read from tokens depends on their kinds alone. Wherever they are said to stand
and whichever source is quoted, the program has the same commands, if there is one, and the
same problems are found. -/
theorem ofTokens_of_sameKinds (source source' : Source) (mode : Mode)
    {tokens others : List Token} (kinds : SameKinds tokens others) (ends : HasEnd tokens) :
    (ofTokens source mode tokens).program?.map Program.commands =
        (ofTokens source' mode others).program?.map Program.commands ∧
      (ofTokens source mode tokens).findings.SameCodes (ofTokens source' mode others).findings :=
  ofFindings_of_alike mode (alike_reading source source' kinds ends)

/-- Two lines, the first of which is not understood, once with their tokens at their places
and once with all tokens at one place that the quoted source does not have. -/
theorem ofTokens_of_sameKinds_reference :
    let source := Source.ofText "star.pilot" "move(;\nmove();"
    let elsewhere := Source.ofText "" ""
    let scattered := source.tokens.map fun token => (⟨token.kind, 7, 9, 2⟩ : Token)
    SameKinds source.tokens scattered ∧ HasEnd source.tokens ∧
      (ofTokens elsewhere .permissive scattered).program?.map Program.commands =
        some [.primitive .move] ∧
      (ofTokens elsewhere .permissive scattered).findings.warnings.map (·.code) =
        [.unexpectedToken] := by
  intro source elsewhere scattered
  have kinds : SameKinds source.tokens scattered := by
    rw [SameKinds, List.map_map]
    rfl
  have ends : HasEnd source.tokens := ⟨⟨.endOfInput, .point 2 8⟩, by decide +kernel, rfl⟩
  obtain ⟨commands, codes⟩ :=
    ofTokens_of_sameKinds source elsewhere .permissive kinds ends
  rw [← commands, ← codes.warnings]
  exact ⟨kinds, ends, by decide +kernel, by decide +kernel⟩

end Parsed

end Rocket

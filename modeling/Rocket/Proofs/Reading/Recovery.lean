import Rocket.Proofs.Reading.Along
import Rocket.Reading.Program

/-!
# From line to line

Wherever a parser is on a line when it gives up or has read a statement, what is left of
the line is passed over and the next line is read on its own. A token list is therefore
read as what its lines are read as, one after the other, up to the first end of input.
-/

namespace Rocket

namespace Line

/-- What consecutive lines are read as, each on its own. -/
def readLines (source : Source) : List Line → Reading (List Statement)
  | [] => pure []
  | line :: lines => do
      let statement? ← Reading.tell (read source line).remarks (read source line).value?
      return statement?.toList ++ (← readLines source lines)

/-- Every line gives rise to its remarks and, if it is understood, to its statement. -/
theorem readLines_eq (source : Source) (lines : List Line) :
    readLines source lines =
      .tell (lines.flatMap fun line => (read source line).remarks)
        (lines.filterMap fun line => (read source line).value?) := by
  induction lines with
  | nil => rfl
  | cons line lines ih =>
      rw [readLines, ih, List.flatMap_cons, List.filterMap_cons]
      simp only [Reading.tell_bind, Reading.remarks_pure, Reading.value?_pure, List.append_nil]
      cases (read source line).value? <;> rfl

/-- Lines without tokens do not count. -/
theorem readLines_blank (source : Source) {blank : List Line} (lines : List Line)
    (empty : ∀ line ∈ blank, line.tokens = []) :
    readLines source (blank ++ lines) = readLines source lines := by
  have silent : ∀ line ∈ blank, read source line = .fail [] := by
    intro line member
    rw [read, empty line member]
  have remarks : (blank.flatMap fun line => (read source line).remarks) = [] := by
    rw [List.flatMap_eq_nil_iff]
    intro line member
    rw [silent line member]
    rfl
  have statements : (blank.filterMap fun line => (read source line).value?) = [] := by
    rw [List.filterMap_eq_nil_iff]
    intro line member
    rw [silent line member]
    rfl
  rw [readLines_eq, readLines_eq, List.flatMap_append, List.filterMap_append, remarks, statements]
  rfl

/-- Newlines in front of a line are empty lines. -/
theorem ofTokens_blank {front : List Token} (blank : ∀ token ∈ front, token.kind = .newline)
    (rest : List Token) :
    ofTokens (front ++ rest) = front.map (fun token => ⟨[], token⟩) ++ ofTokens rest := by
  induction front with
  | nil => rfl
  | cons token front ih =>
      rw [List.forall_mem_cons] at blank
      rw [List.cons_append, ofTokens]
      simp only [blank.1, ih blank.2, List.map_cons, List.cons_append]

theorem readLines_ofTokens_blank (source : Source) {front : List Token}
    (blank : ∀ token ∈ front, token.kind = .newline) (rest : List Token) :
    readLines source (ofTokens (front ++ rest)) = readLines source (ofTokens rest) := by
  rw [ofTokens_blank blank]
  apply readLines_blank
  intro line member
  obtain ⟨token, -, rfl⟩ := List.mem_map.1 member
  rfl

/-- There is nothing to read on the last line if it is empty. -/
theorem readLines_ofTokens_end (source : Source) {stop : Token}
    (ends : stop.kind = .endOfInput) (below : List Token) :
    readLines source (ofTokens (stop :: below)) = pure [] := by
  have lines : ofTokens (stop :: below) = [⟨[], stop⟩] := by
    rw [ofTokens]
    simp only [ends]
  rw [lines]
  rfl

end Line

/-! ## Lists with an end of input -/

/-- The first element that satisfies a condition. -/
theorem exists_first {α : Type} {P : α → Prop} [DecidablePred P] {xs : List α}
    (h : ∃ x ∈ xs, P x) :
    ∃ front x back, xs = front ++ x :: back ∧ (∀ y ∈ front, ¬ P y) ∧ P x := by
  have found : (xs.find? fun x => P x).isSome := by simpa using h
  obtain ⟨x, found⟩ := Option.isSome_iff_exists.1 found
  obtain ⟨holds, front, back, split, before⟩ := List.find?_eq_some_iff_append.1 found
  refine ⟨front, x, back, split, ?_, of_decide_eq_true holds⟩
  intro y member
  simpa using before y member

/-- Whether an end of input is among some tokens. -/
def HasEnd (tokens : List Token) : Prop :=
  ∃ token ∈ tokens, token.kind = .endOfInput

namespace HasEnd

variable {tokens front back : List Token}

/-- An end of input is behind any tokens that are none. -/
theorem of_append (h : HasEnd (front ++ back))
    (others : ∀ token ∈ front, token.kind ≠ .endOfInput) : HasEnd back := by
  obtain ⟨token, member, last⟩ := h
  obtain inFront | inBack := List.mem_append.1 member
  · exact absurd last (others token inFront)
  · exact ⟨token, inBack, last⟩

/-- The newlines at the front of a list with an end of input. -/
theorem exists_blank (h : HasEnd tokens) :
    ∃ front first rest, tokens = front ++ first :: rest ∧
      (∀ token ∈ front, token.kind = .newline) ∧ first.kind ≠ .newline ∧
      HasEnd (first :: rest) := by
  obtain ⟨token, member, last⟩ := h
  obtain ⟨front, first, rest, rfl, others, text⟩ :=
    exists_first (P := fun token => token.kind ≠ .newline) ⟨token, member, by simp [last]⟩
  have blank : ∀ token ∈ front, token.kind = .newline :=
    fun token member => Decidable.not_not.1 (others token member)
  refine ⟨front, first, rest, rfl, blank, text, of_append ⟨token, member, last⟩ ?_⟩
  intro token member
  simp [blank token member]

/-- The end of the first line of a list with an end of input. -/
theorem exists_stop (h : HasEnd tokens) :
    ∃ front stop below, tokens = front ++ stop :: below ∧
      (∀ token ∈ front, token.kind.isLineEnd = false) ∧ stop.kind.isLineEnd = true ∧
      HasEnd (stop :: below) := by
  obtain ⟨token, member, last⟩ := h
  obtain ⟨front, stop, below, rfl, others, ends⟩ :=
    exists_first (P := fun token => token.kind.isLineEnd = true)
      ⟨token, member, by rw [last]; rfl⟩
  have inner : ∀ token ∈ front, token.kind.isLineEnd = false :=
    fun token member => Bool.eq_false_iff.2 (others token member)
  refine ⟨front, stop, below, rfl, inner, ends, of_append ⟨token, member, last⟩ ?_⟩
  intro token member same
  exact others token member (Token.Kind.isLineEnd_iff.2 (.inr same))

end HasEnd

/-! ## The end of a line -/

/-- A token is passed over unless it ends the line. -/
theorem Parser.run_lineRound {tokens : Array Token} {place : Nat} (inside : place < tokens.size) :
    (lineRound ()).run tokens place =
      if (tokenAt tokens place).kind.isLineEnd then (pure (.inr ()), place)
      else (pure (.inl ()), place + 1) := by
  rw [lineRound, run_bind_of_pure rfl]
  split
  · rfl
  · rw [run_bind_of_pure (run_advance inside)]
    rfl

namespace Site

open Rocket.Parser

variable {site : Site} {place : Nat} {left : List Token}

/-- The place of the token that ends the line. -/
def stopPlace (site : Site) : Nat :=
  site.above.length + site.line.tokens.length

theorem isAt_stopPlace (site : Site) : site.IsAt site.stopPlace [] :=
  ⟨site.line.tokens, (List.append_nil _).symm, rfl⟩

theorem eq_stopPlace (h : site.IsAt place []) : place = site.stopPlace := by
  obtain ⟨done, split, rfl⟩ := h
  rw [stopPlace, split, List.append_nil]

/-- Where reading goes on when the line is done: behind a newline, or at the end of
input. -/
def restPlace (site : Site) : Nat :=
  if site.line.stop.kind = .newline then site.stopPlace + 1 else site.stopPlace

/-- What is to be read when the line is done. -/
def rest (site : Site) : List Token :=
  if site.line.stop.kind = .newline then site.below else site.line.stop :: site.below

theorem drop_restPlace (site : Site) : site.tokens.toList.drop site.restPlace = site.rest := by
  have ahead := drop_tokens site.isAt_stopPlace
  unfold restPlace rest
  split
  · exact ahead_succ ahead
  · exact ahead

theorem stopPlace_le (site : Site) : site.stopPlace ≤ site.restPlace := by
  unfold restPlace
  split
  · exact Nat.le_succ _
  · exact Nat.le_refl _

theorem length_rest_le (site : Site) : site.rest.length ≤ site.below.length + 1 := by
  unfold rest
  split
  · exact Nat.le_succ _
  · exact Nat.le_refl _

theorem hasEnd_rest (ends : HasEnd (site.line.stop :: site.below)) : HasEnd site.rest := by
  unfold rest
  split
  next newline =>
    have others : ∀ token ∈ [site.line.stop], token.kind ≠ .endOfInput := by
      intro token member
      simp [List.mem_singleton.1 member, newline]
    exact HasEnd.of_append ends others
  next => exact ends

/-- The lines from this one on are this one and those behind it. -/
theorem readLines_ofTokens (site : Site) (source : Source) :
    Line.readLines source (Line.ofTokens (site.line.tokens ++ site.line.stop :: site.below)) =
      Line.readLines source (site.line :: Line.ofTokens site.rest) := by
  rw [Line.ofTokens_append_cons site.inner site.last, Line.readLines, Line.readLines, rest]
  split
  next => rfl
  next other =>
    have last := (Token.Kind.isLineEnd_iff.1 site.last).resolve_left other
    rw [Line.readLines_ofTokens_end source last]
    rfl

/-- From a place on, a token list with an end of input starts with a line. -/
theorem exists_site {tokens : Array Token} {ahead : List Token}
    (h : tokens.toList.drop place = ahead) (ends : HasEnd ahead) :
    ∃ site : Site, site.tokens = tokens ∧ site.above.length = place ∧
      ahead = site.line.tokens ++ site.line.stop :: site.below ∧
      HasEnd (site.line.stop :: site.below) := by
  obtain ⟨front, stop, below, rfl, inner, last, behind⟩ := ends.exists_stop
  have inside : place + front.length < tokens.size := by
    apply lt_size_of_ahead
    rw [← List.drop_drop, h, List.drop_left]
  refine ⟨⟨tokens.toList.take place, ⟨front, stop⟩, below, last, inner⟩, ?_, ?_, rfl, behind⟩
  · rw [Site.tokens, ← h, List.take_append_drop]
  · apply List.length_take_of_le
    rw [Array.length_toList]
    omega

/-- From anywhere on the line, its end comes next. -/
theorem run_lineRounds (h : site.IsAt place left) :
    iterateFrom lineRound site.tokens () place = (pure (), site.stopPlace) := by
  induction left generalizing place with
  | nil =>
      have here := eq_stopPlace h
      have round := run_lineRound (lt_size h)
      rw [tokenAt_nil h, if_pos site.last] at round
      rw [iterateFrom_of_result round, ← here]
      rfl
  | cons token rest ih =>
      have round := run_lineRound (lt_size h)
      rw [tokenAt_cons h, isLineEnd_of_isAt h, if_neg Bool.false_ne_true] at round
      rw [iterateFrom_of_next round (Nat.lt_succ_self place) (lt_size h), ih h.advance]
      rfl

/-- Passing over a line ends behind its newline, or at the end of input. -/
theorem run_restOfLine (h : site.IsAt place left) :
    restOfLine.run site.tokens place = (pure (), site.restPlace) := by
  have next := tokenAt_nil site.isAt_stopPlace
  rw [restOfLine, run_bind_of_pure (run_lineRounds h), restPlace]
  split
  next newline =>
    rw [run_bind_of_pure (run_eat_of_eq (next ▸ newline) (lt_size site.isAt_stopPlace))]
    rfl
  next other =>
    rw [run_bind_of_pure (run_eat_of_ne (next.symm ▸ other))]
    rfl

end Site

/-! ## Line after line -/

namespace Parser

variable {tokens : Array Token} {place : Nat} {token : Token} {front rest : List Token}

/-- A token that is no newline is not passed over. -/
theorem run_newlineRound_of_ne (other : (tokenAt tokens place).kind ≠ .newline) :
    (newlineRound ()).run tokens place = (pure (.inr ()), place) := by
  rw [newlineRound, run_bind_of_pure (run_eat_of_ne other), if_neg Bool.false_ne_true]
  rfl

/-- A run of newlines is passed over. -/
theorem run_newlines (ahead : tokens.toList.drop place = front ++ token :: rest)
    (blank : ∀ token ∈ front, token.kind = .newline) (other : token.kind ≠ .newline) :
    newlines.run tokens place = (pure (), place + front.length) := by
  change iterateFrom newlineRound tokens () place = _
  induction front generalizing place with
  | nil =>
      have next := tokenAt_of_ahead ahead
      exact iterateFrom_of_result (run_newlineRound_of_ne (next.symm ▸ other))
  | cons first front ih =>
      rw [List.forall_mem_cons] at blank
      have next := tokenAt_of_ahead ahead
      have inside := lt_size_of_ahead ahead
      have round : (newlineRound ()).run tokens place = (pure (.inl ()), place + 1) := by
        rw [newlineRound, run_bind_of_pure (run_eat_of_eq (next ▸ blank.1) inside), if_pos rfl]
        rfl
      rw [iterateFrom_of_next round (Nat.lt_succ_self place) inside, ih (ahead_succ ahead) blank.2,
        List.length_cons, Nat.add_right_comm, Nat.add_assoc]
      rfl

/-- At the end of input there is nothing more to read. -/
theorem run_statementRound_end (source : Source) (read : Array Statement)
    (ahead : tokens.toList.drop place = front ++ token :: rest)
    (blank : ∀ token ∈ front, token.kind = .newline) (ends : token.kind = .endOfInput) :
    (statementRound source read).run tokens place =
      (pure (.inr read.toList), place + front.length) := by
  have here : tokens.toList.drop (place + front.length) = token :: rest := by
    rw [← List.drop_drop, ahead, List.drop_left]
  have passed := run_newlines ahead blank (by simp [ends])
  rw [statementRound, run_bind_of_pure passed, run_bind_of_pure rfl, tokenAt_of_ahead here,
    if_pos ends]
  rfl

/-- A line with tokens is read on its own and left behind, whatever becomes of it. -/
theorem run_statementRound_line (source : Source) (read : Array Statement) {site : Site}
    (ahead : site.tokens.toList.drop place =
      front ++ (site.line.tokens ++ site.line.stop :: site.below))
    (blank : ∀ token ∈ front, token.kind = .newline)
    (above : site.above.length = place + front.length) (nonempty : site.line.tokens ≠ []) :
    (statementRound source read).run site.tokens place =
      (⟨(Line.read source site.line).remarks,
          some (.inl (read ++ (Line.read source site.line).value?.toArray))⟩, site.restPlace) := by
  obtain ⟨first, others, line⟩ := List.exists_cons_of_ne_nil nonempty
  obtain ⟨left, after, isAt, run⟩ := site.run_statement source line
  have start := site.isAt_start
  rw [line] at start ahead
  have inner : ¬ first.kind.isLineEnd = true := by
    rw [Site.isLineEnd_of_isAt start]
    exact Bool.false_ne_true
  rw [Token.Kind.isLineEnd_iff, not_or] at inner
  rw [statementRound, run_bind_of_pure (run_newlines ahead blank inner.1), ← above,
    run_bind_of_pure rfl, Site.tokenAt_cons start, if_neg inner.2,
    run_bind_of_tell (run_recover run), run_bind_of_pure (Site.run_restOfLine isAt)]
  exact congrArg (·, _) (congrArg (Reading.mk · _) (List.append_nil _))

/-- The statements of a token list are those of its lines, up to its first end of input. -/
theorem run_statementRounds (source : Source) {ahead : List Token}
    (h : tokens.toList.drop place = ahead) (ends : HasEnd ahead) (read : Array Statement) :
    ∃ after, iterateFrom (statementRound source) tokens read place =
      ((read.toList ++ ·) <$> Line.readLines source (Line.ofTokens ahead), after) := by
  induction size : ahead.length using Nat.strongRecOn generalizing place ahead read with
  | ind n ih =>
      obtain ⟨front, first, others, rfl, blank, text, later⟩ := ends.exists_blank
      rw [Line.readLines_ofTokens_blank source blank]
      by_cases last : first.kind = .endOfInput
      · refine ⟨place + front.length, ?_⟩
        rw [Line.readLines_ofTokens_end source last, map_pure, List.append_nil]
        exact iterateFrom_of_result (run_statementRound_end source read h blank last)
      · have here : tokens.toList.drop (place + front.length) = first :: others := by
          rw [← List.drop_drop, h, List.drop_left]
        obtain ⟨site, rfl, above, split, behind⟩ := Site.exists_site here later
        have nonempty : site.line.tokens ≠ [] := by
          intro empty
          rw [empty] at split
          obtain ⟨rfl, -⟩ := List.cons.inj split
          exact (Token.Kind.isLineEnd_iff.1 site.last).elim text last
        rw [split] at h size ⊢
        rw [List.length_append, List.length_append, List.length_cons] at size
        have size' := List.length_pos_iff.2 nonempty
        have shorter : site.rest.length < n := by
          have fewer := site.length_rest_le
          omega
        have moved : place < site.restPlace := by
          have onward := site.stopPlace_le
          rw [Site.stopPlace, above] at onward
          omega
        have inside : place < site.tokens.size :=
          Nat.lt_of_le_of_lt (Nat.le_add_right _ _) (lt_size_of_ahead here)
        have round := run_statementRound_line source read h blank above nonempty
        obtain ⟨after, run⟩ := ih site.rest.length shorter site.drop_restPlace
          (site.hasEnd_rest behind) (read ++ (Line.read source site.line).value?.toArray) rfl
        refine ⟨after, ?_⟩
        rw [iterateFrom_of_next round moved inside, run, site.readLines_ofTokens,
          Line.readLines, map_bind, Reading.tell_bind]
        simp only [Array.toList_append, Option.toList_toArray, List.append_assoc, bind_pure_comp,
          Reading.remarks_map, Reading.value?_map, Option.map_map, Function.comp_def]

end Parser

/-- A token list with an end of input is read line by line. -/
theorem Parsed.reading_eq (source : Source) {tokens : List Token} (ends : HasEnd tokens) :
    reading source tokens = Line.readLines source (Line.ofTokens tokens) := by
  have ahead : tokens.toArray.toList.drop 0 = tokens := rfl
  obtain ⟨after, run⟩ := Parser.run_statementRounds source ahead ends #[]
  simp only [List.nil_append, id_map'] at run
  exact congrArg Prod.fst run

end Rocket

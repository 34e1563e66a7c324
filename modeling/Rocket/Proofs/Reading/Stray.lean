import Rocket.Proofs.Reading.Fate
import Rocket.Proofs.Reading.Origin
import Rocket.Proofs.Token.Coverage

/-!
# Second remarks on stray characters

A stray character has a remark from its scan. What is remarked on the tokens of its line
starts elsewhere, with one exception: right behind a complete statement a stray character
is reported once more, as the first of the tokens that do not belong there.

## Implementation notes

What is remarked on the parts of a statement starts with one of the other tokens. No two
tokens start at the same place, so that a remark at a stray character can only come from
the end of a statement. How far a command reaches does not depend on what is behind it,
and this makes out when it does.
-/

namespace Rocket

open Token (Kind unexpected malformed)

/-- Whether two spans start at the same place. -/
def Span.StartsAt (a b : Span) : Prop :=
  a.line = b.line ∧ a.startCol = b.startCol

instance (a b : Span) : Decidable (a.StartsAt b) :=
  inferInstanceAs (Decidable (_ ∧ _))

/-- A span that covers two others starts where one of them does. -/
theorem Span.merge_startsAt (a b : Span) : (a.merge b).StartsAt a ∨ (a.merge b).StartsAt b := by
  unfold merge StartsAt
  split
  next same =>
    rcases Nat.le_total a.startCol b.startCol with first | second
    · exact .inl ⟨rfl, Nat.min_eq_left first⟩
    · exact .inr ⟨same, Nat.min_eq_right second⟩
  next =>
    split
    · exact .inl ⟨rfl, rfl⟩
    · exact .inr ⟨rfl, rfl⟩

/-- Whether a remark is on a place where one of some tokens starts that is no stray
character. -/
def Remark.StartsIn (tokens : List Token) (remark : Remark) : Prop :=
  ∃ token ∈ tokens, token.kind.isStray = false ∧ remark.span.StartsAt token.span

/-- What an entry covers starts with one of its tokens. -/
theorem Entry.exists_startsAt_span (first : Token) (others : List Token) :
    ∃ token ∈ first :: others, (span first others).StartsAt token.span := by
  unfold span
  obtain start | stop := first.span.merge_startsAt ((others.getLast?).getD first).span
  · exact ⟨first, List.mem_cons_self, start⟩
  · cases last : others.getLast? with
    | none => exact ⟨first, List.mem_cons_self, by simpa [last] using stop⟩
    | some token =>
        refine ⟨token, List.mem_cons_of_mem _ (List.mem_of_getLast? last), ?_⟩
        simpa [last] using stop

/-- A remark that arises from some tokens starts with one of them that is no stray
character. -/
theorem Remark.Arises.startsIn {source : Source} {tokens : List Token} {remark : Remark}
    (h : remark.Arises source tokens) : remark.StartsIn tokens := by
  cases h with
  | token member known _ => exact ⟨_, member, known, rfl, rfl⟩
  | @entry _ first others inside known _ =>
      obtain ⟨token, member, starts⟩ := Entry.exists_startsAt_span first others
      exact ⟨token, inside member, known token member, starts⟩

/-! ## How far a command reaches -/

section Extent

variable {source : Source} {stop stop' first : Token} {tokens tail : List Token}

/-- The listing ends at the same bracket, whatever is behind it. -/
theorem Listing.exists_ofTokens_append {depth : Nat} {entries : List (List Token)}
    (closed : ofTokens depth tokens = ⟨entries, some tail⟩) :
    ∃ used, tokens = used ++ tail ∧
      ∀ other, ofTokens depth (used ++ other) = ⟨entries, some other⟩ := by
  induction tokens generalizing depth entries with
  | nil => simp [ofTokens] at closed
  | cons token rest ih =>
      rw [ofTokens] at closed
      split at closed
      next comma =>
        obtain ⟨rfl, rest?⟩ := Listing.mk.inj closed
        have inner : ofTokens 0 rest = ⟨(ofTokens 0 rest).entries, some tail⟩ := by rw [← rest?]
        obtain ⟨used, rfl, same⟩ := ih inner
        refine ⟨token :: used, rfl, fun other => ?_⟩
        rw [List.cons_append, ofTokens, if_pos comma, same]
      next comma =>
        split at closed
        next bracket =>
          obtain ⟨rfl, rest?⟩ := Listing.mk.inj closed
          obtain rfl := Option.some.inj rest?
          refine ⟨[token], rfl, fun other => ?_⟩
          rw [List.singleton_append, ofTokens, if_neg comma, if_pos bracket]
        next bracket =>
          obtain ⟨rfl, rest?⟩ := Listing.mk.inj closed
          have inner : ofTokens (Entry.depthAfter depth token.kind) rest =
              ⟨(ofTokens (Entry.depthAfter depth token.kind) rest).entries, some tail⟩ := by
            rw [← rest?]
          obtain ⟨used, rfl, same⟩ := ih inner
          refine ⟨token :: used, rfl, fun other => ?_⟩
          rw [List.cons_append, ofTokens, if_neg comma, if_neg bracket, same]

namespace Line

variable {kind : Kind} {remark remark' : Token → List Remark} {rest : List Token}

theorem value?_expect :
    (expect stop kind remark tokens).value? = some rest ↔
      ∃ token, tokens = token :: rest ∧ token.kind = kind := by
  cases tokens with
  | nil => simp [expect, Reading.fail]
  | cons token others =>
      rw [expect]
      split
      next same =>
        rw [Reading.value?_pure, Option.some.injEq]
        constructor
        · rintro rfl
          exact ⟨token, rfl, same⟩
        · rintro ⟨_, split, -⟩
          exact (List.cons.inj split).2
      next other =>
        constructor
        · rintro ⟨⟩
        rintro ⟨_, split, same⟩
        obtain ⟨rfl, -⟩ := List.cons.inj split
        exact absurd same other

/-- A call reaches as far, whatever is behind it. -/
theorem exists_readCall_append (read : (readCall stop tokens).value? = some tail) :
    ∃ used, tokens = used ++ tail ∧
      ∀ stop' other, (readCall stop' (used ++ other)).value? = some other := by
  obtain ⟨_, opened, closed⟩ := Reading.value?_bind_eq_some_iff.1 read
  obtain ⟨opening, rfl, opens⟩ := value?_expect.1 opened
  obtain ⟨closing, rfl, closes⟩ := value?_expect.1 closed
  refine ⟨[opening, closing], rfl, fun stop' other => ?_⟩
  exact Reading.value?_bind_eq_some_iff.2
    ⟨_, value?_expect.2 ⟨opening, rfl, opens⟩, value?_expect.2 ⟨closing, rfl, closes⟩⟩

theorem exists_readCount_append {count : UInt32}
    (read : (readCount stop tokens).value? = some (count, tail)) :
    ∃ used, tokens = used ++ tail ∧
      ∀ stop' other, (readCount stop' (used ++ other)).value? = some (count, other) := by
  unfold readCount at read
  split at read
  · cases read
  next text place rest =>
    split at read
    next found =>
      obtain ⟨rfl, rfl⟩ := Prod.mk.inj (Option.some.inj read)
      refine ⟨[⟨.digits text, place⟩], rfl, fun stop' other => ?_⟩
      simp only [List.singleton_append, readCount, found, Reading.value?_pure]
    next => cases read
  next => cases read

theorem exists_readBody_append {body : List Primitive}
    (read : (readBody source stop tokens).value? = some (body, tail)) :
    ∃ used, tokens = used ++ tail ∧
      ∀ stop' other, (readBody source stop' (used ++ other)).value? = some (body, other) := by
  obtain ⟨actions, entries, closed⟩ := Reading.value?_bind_eq_some_iff.1 read
  split at closed
  next rest ends =>
    obtain ⟨rfl, rfl⟩ := Prod.mk.inj (Option.some.inj closed)
    have listing : Listing.ofTokens 0 tokens =
        ⟨(Listing.ofTokens 0 tokens).entries, some rest⟩ := by rw [← ends]
    obtain ⟨used, rfl, same⟩ := Listing.exists_ofTokens_append listing
    refine ⟨used, rfl, fun stop' other => ?_⟩
    refine Reading.value?_bind_eq_some_iff.2 ⟨actions, ?_, ?_⟩
    · rw [same]
      exact entries
    · rw [same]
      rfl
  next => cases closed

/-- A repetition reaches as far, whatever is behind it. -/
theorem exists_readLoop_append {command : Command}
    (read : (readLoop source stop tokens).value? = some (command, tail)) :
    ∃ used, tokens = used ++ tail ∧
      ∀ stop' other, (readLoop source stop' (used ++ other)).value? = some (command, other) := by
  obtain ⟨_, opened, inner⟩ := Reading.value?_bind_eq_some_iff.1 read
  obtain ⟨opening, rfl, opens⟩ := value?_expect.1 opened
  obtain ⟨⟨count, _⟩, counted, behindCount⟩ := Reading.value?_bind_eq_some_iff.1 inner
  obtain ⟨number, rfl, counts⟩ := exists_readCount_append counted
  obtain ⟨_, parted, behindComma⟩ := Reading.value?_bind_eq_some_iff.1 behindCount
  obtain ⟨comma, rfl, parts⟩ := value?_expect.1 parted
  obtain ⟨_, listed, entries⟩ := Reading.value?_bind_eq_some_iff.1 behindComma
  obtain ⟨bracket, rfl, lists⟩ := value?_expect.1 listed
  obtain ⟨⟨body, _⟩, filled, behindBody⟩ := Reading.value?_bind_eq_some_iff.1 entries
  obtain ⟨list, rfl, fills⟩ := exists_readBody_append filled
  obtain ⟨_, closed, same⟩ := Reading.value?_bind_eq_some_iff.1 behindBody
  obtain ⟨closing, rfl, closes⟩ := value?_expect.1 closed
  obtain ⟨rfl, rfl⟩ := Prod.mk.inj (Option.some.inj same)
  refine ⟨opening :: (number ++ comma :: bracket :: (list ++ [closing])), by simp, ?_⟩
  intro stop' other
  have all : opening :: (number ++ comma :: bracket :: (list ++ [closing])) ++ other =
      opening :: (number ++ comma :: bracket :: (list ++ closing :: other)) := by simp
  rw [all]
  unfold readLoop
  refine Reading.value?_bind_eq_some_iff.2 ⟨_, value?_expect.2 ⟨opening, rfl, opens⟩, ?_⟩
  refine Reading.value?_bind_eq_some_iff.2 ⟨_, counts stop' _, ?_⟩
  refine Reading.value?_bind_eq_some_iff.2 ⟨_, value?_expect.2 ⟨comma, rfl, parts⟩, ?_⟩
  refine Reading.value?_bind_eq_some_iff.2 ⟨_, value?_expect.2 ⟨bracket, rfl, lists⟩, ?_⟩
  refine Reading.value?_bind_eq_some_iff.2 ⟨_, fills stop' _, ?_⟩
  exact Reading.value?_bind_eq_some_iff.2 ⟨_, value?_expect.2 ⟨closing, rfl, closes⟩, rfl⟩

/-- A command reaches as far, whatever is behind it. -/
theorem exists_readCommand_append {command : Command}
    (read : (readCommand source stop first tokens).value? = some (command, tail)) :
    ∃ used, tokens = used ++ tail ∧
      ∀ stop' other,
        (readCommand source stop' first (used ++ other)).value? = some (command, other) := by
  unfold readCommand at read
  split at read
  next action known =>
    obtain ⟨_, called, same⟩ := Reading.value?_bind_eq_some_iff.1 read
    obtain ⟨rfl, rfl⟩ := Prod.mk.inj (Option.some.inj same)
    obtain ⟨used, rfl, calls⟩ := exists_readCall_append called
    refine ⟨used, rfl, fun stop' other => ?_⟩
    rw [readCommand, known]
    exact Reading.value?_bind_eq_some_iff.2 ⟨_, calls stop' other, rfl⟩
  next known =>
    obtain ⟨used, rfl, loops⟩ := exists_readLoop_append read
    refine ⟨used, rfl, fun stop' other => ?_⟩
    rw [readCommand, known]
    exact loops stop' other
  next => cases read
  next => cases read

theorem value?_readEnd {last : Token} :
    (readEnd last tokens).value? = some () ↔
      ∃ semicolon, tokens = [semicolon] ∧ semicolon.kind = .semicolon := by
  unfold readEnd
  split
  next => simp [Reading.fail]
  next token =>
    split
    next ends => simpa using ends
    next other => simpa [Reading.fail] using other
  next token next rest =>
    split
    next => simp [Reading.fail]
    next => simp [Reading.fail]

/-- What stands behind a statement is remarked on. -/
theorem trailing_mem_remarks {front : List Token} {next : Token}
    (complete : (read source ⟨front, stop'⟩).value?.isSome = true) :
    ⟨.trailingTokens next.kind, next.span⟩ ∈
      (read source ⟨front ++ next :: tail, stop⟩).remarks := by
  cases front with
  | nil => cases complete
  | cons first tokens =>
      obtain ⟨statement, value⟩ := Option.isSome_iff_exists.1 complete
      obtain ⟨⟨command, _⟩, commanded, ended⟩ := Reading.value?_bind_eq_some_iff.1 value
      obtain ⟨⟨⟩, ends, -⟩ := Reading.value?_bind_eq_some_iff.1 ended
      obtain ⟨semicolon, rfl, closes⟩ := value?_readEnd.1 ends
      obtain ⟨used, rfl, reaches⟩ := exists_readCommand_append commanded
      have whole : first :: (used ++ [semicolon]) ++ next :: tail =
          first :: (used ++ semicolon :: next :: tail) := by simp
      have commands := reaches stop (semicolon :: next :: tail)
      rw [whole]
      dsimp only [read, readStatement]
      generalize readCommand source stop first _ = read at commands ⊢
      obtain ⟨remarks, _⟩ := read
      obtain rfl := commands
      refine List.mem_append_right remarks ?_
      simp only [readEnd, closes, if_true, Reading.fail_bind]
      exact List.mem_singleton_self _

/-- A command with a semicolon is a statement, whatever is behind it. -/
theorem isSome_read_of_readCommand {command : Command} {semicolon next : Token}
    (commanded : (readCommand source stop first tokens).value? =
      some (command, semicolon :: next :: tail)) (closes : semicolon.kind = .semicolon) :
    ∃ front, first :: tokens = front ++ next :: tail ∧
      ∀ stop', (read source ⟨front, stop'⟩).value?.isSome = true := by
  obtain ⟨used, rfl, reaches⟩ := exists_readCommand_append commanded
  refine ⟨first :: (used ++ [semicolon]), by simp, fun stop' => ?_⟩
  refine Option.isSome_iff_exists.2 ⟨_, Reading.value?_bind_eq_some_iff.2
    ⟨_, reaches stop' [semicolon], Reading.value?_bind_eq_some_iff.2 ⟨(), ?_, rfl⟩⟩⟩
  exact value?_readEnd.2 ⟨semicolon, rfl, closes⟩

end Line

end Extent

/-! ## Whole sources -/

theorem Span.IsBefore.not_startsAt {a b : Span} (before : a.IsBefore b)
    (wide : a.startCol ≤ a.endCol) : ¬ a.StartsAt b := by
  rintro ⟨line, col⟩
  obtain above | ⟨-, left⟩ := before
  · omega
  · omega

namespace Line

variable {line : Line} {token other : Token}

/-- Whether the tokens of a line start at different places. -/
def IsApart (line : Line) : Prop :=
  line.allTokens.Pairwise fun a b => ¬ a.span.StartsAt b.span

theorem isApart_ofChars (ending : Token.Kind) (n : Nat) (chars : List Char) :
    (ofChars ending n chars).IsApart := by
  have all : (ofChars ending n chars).allTokens =
      (Scanned.ofLine n chars ++ [Scanned.lineEnd ending n chars]).map (·.token) := by
    simp [allTokens, ofChars]
  have wide : ∀ scanned ∈ Scanned.ofLine n chars ++ [Scanned.lineEnd ending n chars],
      scanned.token.span.startCol ≤ scanned.token.span.endCol := by
    rw [List.forall_mem_append, List.forall_mem_singleton]
    exact ⟨fun found inside => (Scanned.isOn_of_mem inside).1.order, Nat.le_refl _⟩
  rw [IsApart, all, List.pairwise_map]
  exact (Scanned.pairwise_ofLine ending n chars).imp_of_mem fun inside _ before =>
    before.not_startsAt (wide _ inside)

theorem IsApart.eq_of_startsAt (h : line.IsApart) (first : token ∈ line.allTokens)
    (second : other ∈ line.allTokens) (same : token.span.StartsAt other.span) :
    token = other := by
  have : Std.Symm fun a b : Token => ¬ a.span.StartsAt b.span :=
    ⟨fun a b distinct same => distinct ⟨same.1.symm, same.2.symm⟩⟩
  by_contra distinct
  exact h.forall first second distinct same

/-- A token has one place in its line. -/
theorem IsApart.front_eq (h : line.IsApart) {front front' rest rest' : List Token}
    (split : line.tokens = front ++ token :: rest)
    (split' : line.tokens = front' ++ token :: rest') : front = front' := by
  have once : line.tokens.Nodup := by
    refine (List.pairwise_append.1 h).1.imp fun distinct same => distinct ?_
    rw [same]
    exact ⟨rfl, rfl⟩
  rw [split, List.nodup_middle, List.nodup_cons, List.mem_append, not_or] at once
  rw [split] at split'
  exact ((List.append_cons_inj_of_notMem once.1.1 once.1.2).1 split').1

/-- A remark on the tokens of a line that starts at a stray character is on what stands
behind a statement. -/
theorem IsApart.eq_trailing_of_mem {source : Source} {remark : Remark} (h : line.IsApart)
    (inside : token ∈ line.tokens) (stray : token.kind.isStray = true)
    (member : remark ∈ (read source line).remarks) (here : remark.span.StartsAt token.span) :
    remark = ⟨.trailingTokens token.kind, token.span⟩ ∧ ∃ front rest,
      line.tokens = front ++ token :: rest ∧
        ∀ stop, (read source ⟨front, stop⟩).value?.isSome = true := by
  obtain ⟨tokens, stop⟩ := line
  cases tokens with
  | nil => cases inside
  | cons first tokens =>
      have known : token ∈ allTokens ⟨first :: tokens, stop⟩ := List.mem_append_left _ inside
      have ended : stop ∈ allTokens ⟨first :: tokens, stop⟩ :=
        List.mem_append_right _ (List.mem_singleton_self stop)
      obtain arises | ⟨command, semicolon, next, rest, commanded, closes, rfl⟩ :=
        arises_or_trailing_of_mem ended (List.subset_append_left _ _) member
      · obtain ⟨other, among, plain, there⟩ := arises.startsIn
        have same : token = other :=
          h.eq_of_startsAt known among ⟨here.1.symm.trans there.1, here.2.symm.trans there.2⟩
        rw [same, plain] at stray
        cases stray
      · obtain ⟨front, split, complete⟩ := isSome_read_of_readCommand commanded closes
        have among : next ∈ allTokens ⟨first :: tokens, stop⟩ := by
          rw [allTokens, split]
          exact List.mem_append_left _ (List.mem_append_right _ List.mem_cons_self)
        obtain rfl : next = token := h.eq_of_startsAt among known here
        exact ⟨rfl, front, rest, split, complete⟩

end Line

namespace Parsed

variable {source : Source} {mode : Mode} {n : Nat} {token : Token}

/-- Tokens are on the lines of their source. -/
theorem exists_line_of_mem_tokensOf (h : token ∈ source.tokensOf n) :
    ∃ i chars, n = 1 + i ∧ source.lines[i]? = some chars ∧ token.span.line = 1 + i := by
  obtain ⟨member, inside⟩ := List.mem_filter.1 h
  obtain ⟨scanned, inScan, rfl⟩ := List.mem_map.1 member
  obtain ⟨i, chars, there, place⟩ := Source.exists_of_mem_scan inScan
  have line : scanned.token.span.line = i + 1 := by
    obtain inLine | ⟨ending, -, rfl⟩ := place
    · exact Scanned.line_of_mem inLine
    · rfl
  rw [Scanned.isInside, Bool.and_eq_true, decide_eq_true_iff] at inside
  exact ⟨i, chars, by omega, there, by omega⟩

/-- A remark on a token that is on some line comes from the reading of that line. -/
theorem mem_remarks_iff {i : Nat} {chars : List Char} (there : source.lines[i]? = some chars)
    {remark : Remark} (syntactic : remark.problem.code.category = .syntactic)
    (line : remark.span.line = 1 + i) :
    remark ∈ remarks source ↔
      remark ∈ (Line.read source (lineOf source (chars, 1 + i))).remarks := by
  have onLine : remark ∈ remarks source ↔
      remark ∈ (remarks source).filter fun remark => remark.span.line = 1 + i := by
    rw [List.mem_filter, decide_eq_true_iff]
    exact (and_iff_left line).symm
  rw [onLine, remarks_on_line there, List.mem_append, or_iff_left]
  intro scanned
  obtain ⟨-, stray | ⟨unterminated, -⟩⟩ := Scanned.code_of_mem_lineRemarks scanned
  · rw [stray] at syntactic
    cases syntactic
  · rw [unterminated] at syntactic
    cases syntactic

/-- A stray character is found a second time if what stands in front of it is a statement,
and then only as what does not belong behind that. -/
theorem stray_found_behind_statement (source : Source) (mode : Mode) (n : Nat)
    (front rest : List Token) (token : Token)
    (split : source.tokensOf n = front ++ token :: rest) (stray : token.kind.isStray = true) :
    (∀ finding ∈ (ofSource source mode).findings.all, finding.category = .syntactic →
      finding.span.StartsAt token.span →
        finding = .ofRemark source mode ⟨.trailingTokens token.kind, token.span⟩ ∧
          (Line.read source ⟨front, token⟩).value?.isSome = true) ∧
      ((Line.read source ⟨front, token⟩).value?.isSome = true →
        (ofSource source mode).findings.totalErrors +
            (ofSource source mode).findings.totalWarnings ≤ Findings.capacity →
          .ofRemark source mode ⟨.trailingTokens token.kind, token.span⟩ ∈
            (ofSource source mode).findings.all) := by
  have onLine : token ∈ source.tokensOf n := by
    rw [split]
    exact List.mem_append_right _ List.mem_cons_self
  obtain ⟨i, chars, rfl, there, place⟩ := exists_line_of_mem_tokensOf onLine
  have apart := Line.isApart_ofChars (Line.ending (1 + source.lines.length) (1 + i)) (1 + i) chars
  rw [tokensOf_eq there] at split onLine
  constructor
  · intro finding member syntactic here
    obtain ⟨remark, remarked, rfl⟩ := exists_remark_of_mem_findings member
    rw [mem_remarks_iff there syntactic (here.1.trans place)] at remarked
    obtain ⟨rfl, front', rest', split', complete⟩ :=
      apart.eq_trailing_of_mem onLine stray remarked here
    rw [apart.front_eq split split']
    exact ⟨rfl, complete token⟩
  · intro complete few
    rw [all_findings source mode few]
    refine List.mem_map_of_mem ((mem_remarks_iff there rfl place).2 ?_)
    have behind : _ ∈ (Line.read source
        ⟨front ++ token :: rest, (lineOf source (chars, 1 + i)).stop⟩).remarks :=
      Line.trailing_mem_remarks complete
    rwa [← split] at behind

/-- A stray character behind a statement is found twice, one in front of the semicolon
only once. -/
theorem stray_found_behind_statement_reference :
    let source := Source.ofText "main.pilot" "move();@\nmove()@;"
    let findings := (ofSource source .permissive).findings
    let behind : Token := ⟨.stray '@', .point 1 8⟩
    let inside : Token := ⟨.stray '@', .point 2 7⟩
    source.tokensOf 1 = (source.tokensOf 1).take 4 ++ [behind] ∧
      source.tokensOf 2 = (source.tokensOf 2).take 3 ++ inside :: (source.tokensOf 2).drop 4 ∧
      .ofRemark source .permissive ⟨.trailingTokens behind.kind, behind.span⟩ ∈ findings.all ∧
      ∀ finding ∈ findings.all, finding.category = .syntactic →
        ¬ finding.span.StartsAt inside.span := by
  intro source findings behind inside
  have first : source.tokensOf 1 = (source.tokensOf 1).take 4 ++ [behind] := by decide +kernel
  have second : source.tokensOf 2 =
      (source.tokensOf 2).take 3 ++ inside :: (source.tokensOf 2).drop 4 := by decide +kernel
  refine ⟨first, second, ?_, ?_⟩
  · exact (stray_found_behind_statement source .permissive 1 _ _ behind first rfl).2
      (by decide +kernel) (by decide +kernel)
  · intro finding member syntactic here
    obtain ⟨-, complete⟩ := (stray_found_behind_statement source .permissive 2 _ _ inside
      second rfl).1 finding member syntactic here
    exact absurd complete (by decide +kernel)

/-- What is found on tokens does start at stray characters. -/
theorem not_all_strays_found_once :
    ¬ ∀ source mode, ∀ token ∈ source.tokens, token.kind.isStray = true →
      ∀ finding ∈ (ofSource source mode).findings.all, finding.category = .syntactic →
        ¬ finding.span.StartsAt token.span := by
  intro once
  have twice : ∃ token ∈ (Source.ofText Source.defaultName "move();@").tokens,
      token.kind.isStray = true ∧
        ∃ finding ∈ (ofSource (.ofText Source.defaultName "move();@") .permissive).findings.all,
          finding.category = .syntactic ∧ finding.span.StartsAt token.span := by
    decide +kernel
  obtain ⟨token, member, stray, finding, kept, syntactic, here⟩ := twice
  exact once _ _ token member stray finding kept syntactic here

end Parsed

end Rocket

import Rocket.Proofs.Reading.Grammar
import Rocket.Proofs.Token.Lexeme

/-!
# Lines of the grammar

A line without a stray character is read without a remark exactly if the kinds of
its tokens are those of a statement, and then as the command they stand for. Every
other such line is remarked on.
-/

namespace Rocket.Grammar

open Token (Kind)

theorem isClear_of_isRegular {kinds : List Kind} (h : ∀ kind ∈ kinds, kind.IsRegular) :
    IsClear kinds :=
  fun kind member => Kind.isStray_of_isRegular (h kind member)

variable {source : Source} {stop : Token} {tokens rest : List Token}

/-! ## Parts of a line -/

/-- A token is passed over exactly if it has the kind that is asked for. -/
theorem expect_eq_pure_iff {kind : Kind} {remark : Token → List Remark} :
    Line.expect stop kind remark tokens = pure rest ↔
      ∃ place, tokens = ⟨kind, place⟩ :: rest := by
  cases tokens with
  | nil => simp [Line.expect, Reading.fail_ne_pure]
  | cons token tokens =>
      obtain ⟨found, place⟩ := token
      by_cases same : found = kind
      · simp [Line.expect, same, Reading.pure_inj]
      · simp [Line.expect, same, Reading.fail_ne_pure]

/-- The count of a run of digits is the number it stands for, if it fits. -/
theorem count?_eq_some_iff {digits : String} {count : UInt32} (nonempty : digits.toList ≠ [])
    (all : ∀ c ∈ digits.toList, c.isDigit = true) :
    Token.count? digits = some count ↔ Text.IsNumeral digits.toList count.toNat := by
  rw [Token.count?, Option.map_eq_some_iff]
  constructor
  · rintro ⟨n, read, rfl⟩
    obtain ⟨numeral, below⟩ := (Text.natBelow?_eq_some_iff nonempty all).1 read
    rwa [UInt32.toNat_ofNat_of_lt' below]
  · intro numeral
    refine ⟨count.toNat, ?_, UInt32.ofNat_toNat⟩
    exact (Text.natBelow?_eq_some_iff nonempty all).2 ⟨numeral, count.toNat_lt⟩

/-- A count is read exactly from digits that stand for it. -/
theorem readCount_eq_pure_iff {count : UInt32} :
    Line.readCount stop tokens = pure (count, rest) ↔
      ∃ digits place, tokens = ⟨.digits digits, place⟩ :: rest ∧
        Token.count? digits = some count := by
  unfold Line.readCount
  split
  · simp [Reading.fail_ne_pure]
  next digits place tokens =>
    split
    next found read =>
      rw [Reading.pure_inj, Prod.mk.injEq]
      constructor
      · rintro ⟨rfl, rfl⟩
        exact ⟨digits, place, rfl, read⟩
      · rintro ⟨_, _, same, found⟩
        obtain ⟨⟨⟩, rfl⟩ := List.cons.inj same
        exact ⟨Option.some.inj (read.symm.trans found), rfl⟩
    next unread =>
      simp [Reading.fail_ne_pure, unread]
  next token tokens other =>
    constructor
    · intro failed
      exact absurd failed Reading.fail_ne_pure
    · rintro ⟨digits, place, same, -⟩
      exact (other digits place (List.cons.inj same).1).elim

/-- A statement ends exactly with a semicolon that nothing follows. -/
theorem readEnd_eq_pure_iff {last : Token} :
    Line.readEnd last tokens = pure () ↔ ∃ place, tokens = [⟨.semicolon, place⟩] := by
  unfold Line.readEnd
  split
  · simp [Reading.fail_ne_pure]
  next token =>
    obtain ⟨kind, place⟩ := token
    by_cases same : kind = .semicolon
    · simp [same]
    · simp [same, Reading.fail_ne_pure]
  next token next tokens =>
    split <;> simp [Reading.fail_ne_pure]

theorem readCall_eq_pure_iff :
    Line.readCall stop tokens = pure rest ↔
      ∃ a b, tokens = ⟨.openParen, a⟩ :: ⟨.closeParen, b⟩ :: rest := by
  simp only [Line.readCall, Reading.bind_eq_pure_iff, expect_eq_pure_iff]
  constructor
  · rintro ⟨_, ⟨a, rfl⟩, b, rfl⟩
    exact ⟨a, b, rfl⟩
  · rintro ⟨a, b, rfl⟩
    exact ⟨_, ⟨a, rfl⟩, b, rfl⟩

/-- A repetition behind its opening word is read without a remark exactly if it has its
parts in the order of the grammar. -/
theorem readLoop_eq_pure_iff {command : Command}
    (regular : ∀ kind ∈ tokens.map (·.kind), kind.IsRegular) :
    Line.readLoop source stop tokens = pure (command, rest) ↔
      ∃ a digits b c d list e f count body,
        tokens = ⟨.openParen, a⟩ :: ⟨.digits digits, b⟩ :: ⟨.comma, c⟩ :: ⟨.openBracket, d⟩
          :: (list ++ ⟨.closeBracket, e⟩ :: ⟨.closeParen, f⟩ :: rest) ∧
        Text.IsNumeral digits.toList count.toNat ∧ IsEntries (list.map (·.kind)) body ∧
        command = .loop count body := by
  simp only [Line.readLoop, Reading.bind_eq_pure_iff, expect_eq_pure_iff]
  constructor
  · rintro ⟨_, ⟨a, rfl⟩, ⟨count, _⟩, counted, _, ⟨c, rfl⟩, _, ⟨d, rfl⟩, ⟨body, _⟩, listed, _,
      ⟨f, rfl⟩, done⟩
    obtain ⟨digits, b, rfl, read⟩ := readCount_eq_pure_iff.1 counted
    simp only [List.map_cons, List.forall_mem_cons] at regular
    obtain ⟨-, run, -, -, inside⟩ := regular
    obtain ⟨list, e, rfl, entries⟩ := (readBody_eq_pure_iff (isClear_of_isRegular inside)).1 listed
    obtain ⟨rfl, rfl⟩ := Prod.mk.inj (Reading.pure_inj.1 done)
    have numeral := (count?_eq_some_iff run.1 run.2).1 read
    exact ⟨a, digits, b, c, d, list, e, f, count, body, rfl, numeral, entries, rfl⟩
  · rintro ⟨a, digits, b, c, d, list, e, f, count, body, rfl, numeral, entries, rfl⟩
    have read := (count?_eq_some_iff numeral.nonempty numeral.all).2 numeral
    simp only [List.map_cons, List.forall_mem_cons] at regular
    have inside := isClear_of_isRegular regular.2.2.2.2
    exact ⟨_, ⟨a, rfl⟩, (count, _), readCount_eq_pure_iff.2 ⟨digits, b, rfl, read⟩, _, ⟨c, rfl⟩, _,
      ⟨d, rfl⟩, (body, _), (readBody_eq_pure_iff inside).2 ⟨list, e, rfl, entries⟩, _,
      ⟨f, rfl⟩, rfl⟩

/-! ## Whole lines -/

/-- A command is read without a remark exactly from a call, or from a repetition. -/
theorem readCommand_eq_pure_iff {first : Token} {command : Command} :
    Line.readCommand source stop first tokens = pure (command, rest) ↔
      (∃ p, first.kind = .primitive p ∧ command = .primitive p ∧
        Line.readCall stop tokens = pure rest) ∨
      first.kind = .loop ∧ Line.readLoop source stop tokens = pure (command, rest) := by
  unfold Line.readCommand
  split
  next p kind =>
    simp only [kind, Reading.bind_eq_pure_iff, Reading.pure_inj, Prod.mk.injEq]
    constructor
    · rintro ⟨_, called, rfl, rfl⟩
      exact .inl ⟨p, rfl, rfl, called⟩
    · rintro (⟨_, ⟨⟩, rfl, called⟩ | ⟨⟨⟩, -⟩)
      exact ⟨rest, called, rfl, rfl⟩
  next kind => simp [kind]
  next name kind => simp [kind, Reading.fail_ne_pure]
  next noAction noLoop _ =>
    constructor
    · intro failed
      exact absurd failed Reading.fail_ne_pure
    · rintro (⟨p, kind, -⟩ | ⟨kind, -⟩)
      · exact absurd kind (noAction p)
      · exact absurd kind noLoop

/-- A statement is a command and a semicolon that ends the line. -/
theorem readStatement_eq_pure_iff {first : Token} {statement : Statement} :
    Line.readStatement source stop first tokens = pure statement ↔
      (∃ place, Line.readCommand source stop first tokens =
        pure (statement.command, [⟨.semicolon, place⟩])) ∧
      statement.span = first.span.merge ((tokens.getLast?).getD first).span := by
  rw [Line.readStatement, Reading.bind_eq_pure_iff]
  constructor
  · rintro ⟨⟨command, tail⟩, read, ended⟩
    obtain ⟨_, closed, done⟩ := Reading.bind_eq_pure_iff.1 ended
    obtain ⟨place, rfl⟩ := readEnd_eq_pure_iff.1 closed
    obtain rfl := Reading.pure_inj.1 done
    exact ⟨⟨place, read⟩, rfl⟩
  · rintro ⟨⟨place, read⟩, span⟩
    refine ⟨_, read, Reading.bind_eq_pure_iff.2 ⟨(), readEnd_eq_pure_iff.2 ⟨place, rfl⟩, ?_⟩⟩
    rw [Reading.pure_inj, ← span]

/-- The place of a line's statement: from its first token to its last. -/
def IsSpanOf (tokens : List Token) (span : Span) : Prop :=
  ∃ first last, tokens.head? = some first ∧ tokens.getLast? = some last ∧
    span = first.span.merge last.span

theorem isSpanOf_cons_iff {first : Token} {span : Span} :
    IsSpanOf (first :: tokens) span ↔
      span = first.span.merge ((tokens.getLast?).getD first).span := by
  constructor
  · rintro ⟨_, _, ⟨⟩, tail, rfl⟩
    rw [List.getLast?_cons] at tail
    obtain rfl := Option.some.inj tail
    rfl
  · intro h
    exact ⟨first, _, rfl, List.getLast?_cons, h⟩

/-- The kinds of a line that is read without a remark are those of a statement. -/
theorem isStatement_of_readCommand {first : Token} {command : Command} {place : Span}
    (regular : ∀ kind ∈ tokens.map (·.kind), kind.IsRegular)
    (h : Line.readCommand source stop first tokens = pure (command, [⟨.semicolon, place⟩])) :
    IsStatement (first.kind :: tokens.map (·.kind)) command := by
  obtain ⟨p, kind, rfl, called⟩ | ⟨kind, looped⟩ := readCommand_eq_pure_iff.1 h
  · obtain ⟨a, b, rfl⟩ := readCall_eq_pure_iff.1 called
    rw [kind]
    exact .primitive p
  · obtain ⟨a, digits, b, c, d, list, e, f, count, body, rfl, numeral, entries, rfl⟩ :=
      (readLoop_eq_pure_iff regular).1 looped
    rw [kind]
    simpa using IsStatement.loop numeral entries

/-- A line whose kinds are those of a statement is read without a remark. -/
theorem readCommand_of_isStatement {first : Token} {command : Command}
    (regular : ∀ kind ∈ tokens.map (·.kind), kind.IsRegular)
    (h : IsStatement (first.kind :: tokens.map (·.kind)) command) :
    ∃ place, Line.readCommand source stop first tokens =
      pure (command, [⟨.semicolon, place⟩]) := by
  generalize shape : first.kind :: tokens.map (·.kind) = kinds at h
  cases h with
  | primitive p =>
      obtain ⟨kind, shape⟩ := List.cons.inj shape
      obtain ⟨a, _, rfl, afterOpen⟩ := exists_cons_of_kinds shape
      obtain ⟨b, _, rfl, afterClose⟩ := exists_cons_of_kinds afterOpen
      obtain ⟨c, _, rfl, afterEnd⟩ := exists_cons_of_kinds afterClose
      obtain rfl := List.map_eq_nil_iff.1 afterEnd
      exact ⟨c, readCommand_eq_pure_iff.2
        (.inl ⟨p, kind, rfl, readCall_eq_pure_iff.2 ⟨a, b, rfl⟩⟩)⟩
  | @loop digits entries body count numeral list =>
      obtain ⟨kind, shape⟩ := List.cons.inj shape
      obtain ⟨a, _, rfl, afterOpen⟩ := exists_cons_of_kinds shape
      obtain ⟨b, _, rfl, afterCount⟩ := exists_cons_of_kinds afterOpen
      obtain ⟨c, _, rfl, afterComma⟩ := exists_cons_of_kinds afterCount
      obtain ⟨d, _, rfl, inside⟩ := exists_cons_of_kinds afterComma
      obtain ⟨front, _, rfl, rfl, close⟩ := List.map_eq_append_iff.1 inside
      obtain ⟨e, _, rfl, afterList⟩ := exists_cons_of_kinds close
      obtain ⟨f, _, rfl, afterClose⟩ := exists_cons_of_kinds afterList
      obtain ⟨g, _, rfl, afterEnd⟩ := exists_cons_of_kinds afterClose
      obtain rfl := List.map_eq_nil_iff.1 afterEnd
      exact ⟨g, readCommand_eq_pure_iff.2 (.inr ⟨kind, (readLoop_eq_pure_iff regular).2
        ⟨a, digits, b, c, d, front, e, f, count, body, rfl, numeral, list, rfl⟩⟩)⟩

/-- A regular line is read without a remark exactly if its kinds are those of a
statement, and then as the command they stand for, at the place of all its tokens. -/
theorem read_eq_pure_iff {line : Line} {statement : Statement}
    (regular : ∀ kind ∈ line.tokens.map (·.kind), kind.IsRegular) :
    Line.read source line = pure statement ↔
      IsStatement (line.tokens.map (·.kind)) statement.command ∧
        IsSpanOf line.tokens statement.span := by
  obtain ⟨tokens, stop⟩ := line
  cases tokens with
  | nil =>
      constructor
      · intro failed
        exact absurd failed Reading.fail_ne_pure
      · rintro ⟨-, _, _, ⟨⟩, -⟩
  | cons first tokens =>
      have behind := (List.forall_mem_cons.1 regular).2
      rw [Line.read, readStatement_eq_pure_iff, isSpanOf_cons_iff]
      constructor
      · rintro ⟨⟨place, read⟩, span⟩
        exact ⟨isStatement_of_readCommand behind read, span⟩
      · rintro ⟨statement, span⟩
        exact ⟨readCommand_of_isStatement behind statement, span⟩

/-! ## Regular kinds -/

theorem isRegular_of_isEntry {kinds : List Kind} {body : List Primitive} (h : IsEntry kinds body) :
    ∀ kind ∈ kinds, kind.IsRegular := by
  cases h <;> simp [Kind.IsRegular]

theorem isRegular_of_isEntries {kinds : List Kind} {body : List Primitive}
    (h : IsEntries kinds body) : ∀ kind ∈ kinds, kind.IsRegular := by
  induction h with
  | last entry => exact isRegular_of_isEntry entry
  | more entry _ ih =>
      rw [List.forall_mem_append, List.forall_mem_cons]
      exact ⟨isRegular_of_isEntry entry, trivial, ih⟩

/-- The kinds of a statement are regular. -/
theorem isRegular_of_isStatement {kinds : List Kind} {command : Command}
    (h : IsStatement kinds command) : ∀ kind ∈ kinds, kind.IsRegular := by
  cases h with
  | primitive p => simp [Kind.IsRegular]
  | @loop digits _ _ _ numeral list =>
      have run : (Kind.digits digits).IsRegular := ⟨numeral.nonempty, numeral.all⟩
      simp only [List.forall_mem_append, List.forall_mem_cons]
      exact ⟨⟨⟨trivial, trivial, run, trivial, trivial, by simp⟩, isRegular_of_isEntries list⟩,
        trivial, trivial, trivial, by simp⟩

/-! ## Remarks -/

theorem unexpected_ne_nil {expected : Expected} (token : Token)
    (known : token.kind.isStray = false) : Token.unexpected expected token ≠ [] := by
  simp [Token.unexpected, known]

theorem malformed_ne_nil {expected : Expected} (token : Token)
    (known : token.kind.isStray = false) : Token.malformed expected token ≠ [] := by
  simp [Token.malformed, known]

theorem explains_readEnd {last : Token} (clear : IsClear (tokens.map (·.kind))) :
    (Line.readEnd last tokens).Explains := by
  unfold Line.readEnd
  split
  · exact Reading.explains_fail (List.cons_ne_nil _ _)
  next token =>
    split
    · exact Reading.explains_pure _
    · exact Reading.explains_fail (unexpected_ne_nil token (isClear_cons.1 clear).1)
  next token next tokens =>
    split
    · exact Reading.explains_fail (List.cons_ne_nil _ _)
    · exact Reading.explains_fail (unexpected_ne_nil token (isClear_cons.1 clear).1)

/-- An entry is never dropped in silence: at worst it stands for no action. -/
theorem explains_readAll (entries : List (List Token)) :
    (Entry.readAll source entries).Explains := by
  induction entries with
  | nil => exact Reading.explains_pure _
  | cons entry entries ih =>
      have first : (Entry.read source entry).Explains := by
        unfold Entry.read
        split
        · exact Reading.explains_pure _
        · exact Reading.explains_tell _ _
        · exact Reading.explains_pure _
        · exact Reading.explains_tell _ _
      exact first.bind fun _ _ => ih.bind fun _ _ => Reading.explains_pure _

section Remarks

variable (ended : stop.kind.isStray = false)
include ended

/-- A token that is not passed over is remarked on, unless it is a stray character. -/
theorem explains_expect {kind : Kind} {remark : Token → List Remark}
    (clear : IsClear (tokens.map (·.kind)))
    (known : ∀ token : Token, token.kind.isStray = false → remark token ≠ []) :
    (Line.expect stop kind remark tokens).Explains := by
  cases tokens with
  | nil => exact Reading.explains_fail (known stop ended)
  | cons token tokens =>
      rw [Line.expect]
      split
      · exact Reading.explains_pure _
      · exact Reading.explains_fail (known token (isClear_cons.1 clear).1)

theorem explains_readCount (clear : IsClear (tokens.map (·.kind))) :
    (Line.readCount stop tokens).Explains := by
  unfold Line.readCount
  split
  · exact Reading.explains_fail (malformed_ne_nil stop ended)
  · split
    · exact Reading.explains_pure _
    · exact Reading.explains_fail (List.cons_ne_nil _ _)
  next token tokens _ =>
    exact Reading.explains_fail (malformed_ne_nil token (isClear_cons.1 clear).1)

theorem explains_readCall (clear : IsClear (tokens.map (·.kind))) :
    (Line.readCall stop tokens).Explains := by
  refine (explains_expect ended clear (unexpected_ne_nil)).bind fun rest read => ?_
  obtain ⟨place, rfl⟩ := expect_eq_pure_iff.1 read
  exact explains_expect ended (isClear_cons.1 clear).2 (unexpected_ne_nil)

theorem explains_readBody : (Line.readBody source stop tokens).Explains := by
  refine (explains_readAll _).bind fun body _ => ?_
  split
  · exact Reading.explains_pure _
  · exact Reading.explains_fail (malformed_ne_nil stop ended)

theorem explains_readLoop (clear : IsClear (tokens.map (·.kind))) :
    (Line.readLoop source stop tokens).Explains := by
  refine (explains_expect ended clear malformed_ne_nil).bind fun _ opened => ?_
  obtain ⟨a, rfl⟩ := expect_eq_pure_iff.1 opened
  have clear := (isClear_cons.1 clear).2
  refine (explains_readCount ended clear).bind fun (count, _) counted => ?_
  obtain ⟨digits, b, rfl, -⟩ := readCount_eq_pure_iff.1 counted
  have clear := (isClear_cons.1 clear).2
  refine (explains_expect ended clear malformed_ne_nil).bind fun _ parted => ?_
  obtain ⟨c, rfl⟩ := expect_eq_pure_iff.1 parted
  have clear := (isClear_cons.1 clear).2
  refine (explains_expect ended clear malformed_ne_nil).bind fun _ listed => ?_
  obtain ⟨d, rfl⟩ := expect_eq_pure_iff.1 listed
  have clear := (isClear_cons.1 clear).2
  refine (explains_readBody ended).bind fun (body, _) inside => ?_
  obtain ⟨front, e, rfl, -⟩ := (readBody_eq_pure_iff clear).1 inside
  rw [List.map_append] at clear
  have clear := (isClear_cons.1 (isClear_append.1 clear).2).2
  exact (explains_expect ended clear malformed_ne_nil).bind fun _ _ => Reading.explains_pure _

theorem explains_readCommand {first : Token}
    (clear : IsClear ((first :: tokens).map (·.kind))) :
    (Line.readCommand source stop first tokens).Explains := by
  obtain ⟨clearFirst, clear⟩ := isClear_cons.1 clear
  unfold Line.readCommand
  split
  · exact (explains_readCall ended clear).bind fun _ _ => Reading.explains_pure _
  · exact explains_readLoop ended clear
  · exact Reading.explains_fail (List.cons_ne_nil _ _)
  · exact Reading.explains_fail (unexpected_ne_nil first clearFirst)

end Remarks

/-- A regular line that has tokens is a statement unless it is remarked on. -/
theorem explains_read {line : Line} (ended : line.stop.kind.isStray = false)
    (regular : ∀ kind ∈ line.tokens.map (·.kind), kind.IsRegular) (nonempty : line.tokens ≠ []) :
    (Line.read source line).Explains := by
  obtain ⟨tokens, stop⟩ := line
  obtain ⟨first, tokens, rfl⟩ := List.exists_cons_of_ne_nil nonempty
  have behind := (List.forall_mem_cons.1 regular).2
  refine (explains_readCommand ended (isClear_of_isRegular regular)).bind
    fun (command, tail) read => ?_
  obtain ⟨front, rfl⟩ : ∃ front, tokens = front ++ tail := by
    obtain ⟨p, -, -, called⟩ | ⟨-, looped⟩ := readCommand_eq_pure_iff.1 read
    · obtain ⟨a, b, rfl⟩ := readCall_eq_pure_iff.1 called
      exact ⟨[_, _], rfl⟩
    · obtain ⟨a, digits, b, c, d, list, e, f, -, -, rfl, -⟩ :=
        (readLoop_eq_pure_iff behind).1 looped
      exact ⟨⟨.openParen, a⟩ :: ⟨.digits digits, b⟩ :: ⟨.comma, c⟩ :: ⟨.openBracket, d⟩
        :: (list ++ [⟨.closeBracket, e⟩, ⟨.closeParen, f⟩]), by simp⟩
  rw [List.map_append] at behind
  have clear := (isClear_append.1 (isClear_of_isRegular behind)).2
  exact (explains_readEnd clear).bind fun _ _ => Reading.explains_pure _

end Rocket.Grammar

import Rocket.Proofs.Reading.Line

/-!
# Accounting for what is read

Reading a line leaves nothing unsaid and says nothing twice. As long as a line is
understood, all that is remarked on are the entries left out of its command list. Where it
is no longer understood, there is one remark on that and nothing further, or none if the
token is a stray character, which has a remark of its own.

## Implementation notes

Each part of a statement is accounted for by what its value has to satisfy. The tokens
behind a part are a suffix of those it was read from, so that the tokens in hand always lie
on the line, and the last of them is the last one of the line.
-/

namespace Rocket

open Token (Kind unexpected malformed)

namespace Code

/-- Whether a remark is on an entry that is left out of a command list. -/
def leavesEntryOut (code : Code) : Bool :=
  code ∈ [unknownEntry, nestedLoop]

/-- Whether a remark is the reason for leaving out a line. -/
def dropsLine (code : Code) : Bool :=
  code ∈ [unknownCommand, malformedLoop, countOutOfRange, trailingTokens, missingSemicolon,
    unexpectedToken]

/-- A remark on an entry is no reason for leaving out its line. -/
theorem dropsLine_of_leavesEntryOut {code : Code} (h : code.leavesEntryOut = true) :
    code.dropsLine = false := by
  rw [leavesEntryOut, decide_eq_true_iff] at h
  obtain rfl | h := List.mem_cons.1 h
  · rfl
  · obtain rfl := List.mem_singleton.1 h
    rfl

end Code

/-- Remarks on entries give no reason for leaving out a line. -/
theorem Remark.countP_dropsLine_eq_zero {remarks : List Remark}
    (h : ∀ remark ∈ remarks, remark.problem.code.leavesEntryOut = true) :
    remarks.countP (·.problem.code.dropsLine) = 0 := by
  rw [List.countP_eq_zero]
  intro remark member
  rw [Code.dropsLine_of_leavesEntryOut (h remark member)]
  exact Bool.false_ne_true

namespace Reading

variable {α β : Type} {n : Nat} {stray : Prop} {Q : α → Prop} {R : β → Prop}

/-- Whether a reading of part of line `n` is accounted for. Here `stray` says that the line
has a stray character, and `Q` what holds of the value. -/
structure Accounts (n : Nat) (stray : Prop) (Q : α → Prop) (r : Reading α) : Prop where
  here : ∀ remark ∈ r.remarks, remark.span.line = n
  value : ∀ a, r.value? = some a → Q a
  kept : ∀ a, r.value? = some a → ∀ remark ∈ r.remarks, remark.problem.code.leavesEntryOut = true
  dropped : r.value? = none → r.remarks = [] → stray
  once : r.remarks.countP (·.problem.code.dropsLine) ≤ 1

/-- Remarks on entries only, and a value. -/
theorem accounts_tell {remarks : List Remark} {a : α}
    (here : ∀ remark ∈ remarks, remark.span.line = n)
    (mild : ∀ remark ∈ remarks, remark.problem.code.leavesEntryOut = true) (value : Q a) :
    (tell remarks a).Accounts n stray Q where
  here := here
  value := by
    rintro _ ⟨⟩
    exact value
  kept := fun _ _ => mild
  dropped := nofun
  once := by
    have none := Remark.countP_dropsLine_eq_zero mild
    exact none ▸ Nat.zero_le 1

theorem accounts_pure {a : α} (value : Q a) : (pure a : Reading α).Accounts n stray Q :=
  accounts_tell nofun nofun value

/-- One remark, and no value. -/
theorem accounts_fail {remark : Remark} (here : remark.span.line = n) :
    (fail [remark] : Reading α).Accounts n stray Q where
  here := by
    intro other member
    rw [List.mem_singleton.1 member, here]
  value := nofun
  kept := nofun
  dropped := nofun
  once := List.countP_le_length

/-- Nothing to say of a stray character. -/
theorem accounts_silent (h : stray) : (fail [] : Reading α).Accounts n stray Q where
  here := nofun
  value := nofun
  kept := nofun
  dropped := fun _ _ => h
  once := Nat.zero_le 1

/-- A composite is accounted for if its parts are. -/
theorem Accounts.bind {r : Reading α} {f : α → Reading β} (first : r.Accounts n stray Q)
    (second : ∀ a, Q a → (f a).Accounts n stray R) : (r >>= f).Accounts n stray R := by
  obtain ⟨remarks, value?⟩ := r
  cases value? with
  | none =>
      have ended : (⟨remarks, none⟩ : Reading α) >>= f = ⟨remarks, none⟩ := rfl
      rw [ended]
      exact ⟨first.here, nofun, nofun, fun _ => first.dropped rfl, first.once⟩
  | some a =>
      have rest := second a (first.value a rfl)
      have mild := first.kept a rfl
      constructor
      case here => exact List.forall_mem_append.2 ⟨first.here, rest.here⟩
      case value => exact rest.value
      case kept =>
        intro b value
        exact List.forall_mem_append.2 ⟨mild, rest.kept b value⟩
      case dropped =>
        intro none silent
        exact rest.dropped none (List.append_eq_nil_iff.1 silent).2
      case once =>
        have once := rest.once
        simp only [Bind.bind, andThen, List.countP_append,
          Remark.countP_dropsLine_eq_zero mild]
        omega

/-- What follows from what holds of the value holds of it too. -/
theorem Accounts.imp {r : Reading α} {P : α → Prop} (h : r.Accounts n stray Q)
    (weaker : ∀ a, Q a → P a) : r.Accounts n stray P :=
  { h with value := fun a value => weaker a (h.value a value) }

end Reading

/-- Whether tokens lie on line `n`, where `stray` says that the line has a stray
character. -/
def Within (n : Nat) (stray : Prop) (tokens : List Token) : Prop :=
  ∀ token ∈ tokens, token.span.line = n ∧ (token.kind.isStray = true → stray)

namespace Within

variable {n : Nat} {stray : Prop} {tokens rest : List Token} {token : Token}

theorem of_subset (h : Within n stray tokens) (inside : rest ⊆ tokens) : Within n stray rest :=
  fun token member => h token (inside member)

theorem of_suffix (h : Within n stray tokens) (behind : rest <:+ tokens) : Within n stray rest :=
  h.of_subset behind.subset

end Within

section Parts

variable {α : Type} {n : Nat} {stray : Prop} {Q : α → Prop} {source : Source}
variable {token stop first : Token} {tokens : List Token}

theorem accounts_unexpected {expected : Expected} (here : token.span.line = n)
    (known : token.kind.isStray = true → stray) :
    (Reading.fail (unexpected expected token) : Reading α).Accounts n stray Q := by
  unfold Token.unexpected
  split
  next found => exact Reading.accounts_silent (known found)
  next => exact Reading.accounts_fail here

theorem accounts_malformed {expected : Expected} (here : token.span.line = n)
    (known : token.kind.isStray = true → stray) :
    (Reading.fail (malformed expected token) : Reading α).Accounts n stray Q := by
  unfold Token.malformed
  split
  next found => exact Reading.accounts_silent (known found)
  next => exact Reading.accounts_fail here

namespace Entry

theorem line_span {first : Token} {others : List Token}
    (within : Within n stray (first :: others)) : (span first others).line = n := by
  have start := (within first List.mem_cons_self).1
  rw [span, Span.merge_line, start]
  cases last : others.getLast? with
  | none => rw [Option.getD_none, start, Nat.min_self]
  | some token =>
      have stop := (within token (List.mem_cons_of_mem _ (List.mem_of_getLast? last))).1
      rw [Option.getD_some, stop, Nat.min_self]

/-- An entry always stands for some actions, at worst for none. -/
theorem accounts_read (within : Within n stray tokens) :
    (read source tokens).Accounts n stray fun _ => True := by
  unfold read
  split
  · exact Reading.accounts_pure trivial
  next text place =>
    have here : place.line = n := (within _ List.mem_cons_self).1
    refine Reading.accounts_tell ?_ ?_ trivial
    · exact List.forall_mem_map.2 fun _ _ => here
    · exact List.forall_mem_map.2 fun _ _ => rfl
  · exact Reading.accounts_pure trivial
  next first others _ _ =>
    have here := line_span within
    unfold remarks
    split
    · exact Reading.accounts_tell nofun nofun trivial
    · split
      · exact Reading.accounts_tell (List.forall_mem_singleton.2 here)
          (List.forall_mem_singleton.2 rfl) trivial
      · exact Reading.accounts_tell (List.forall_mem_singleton.2 here)
          (List.forall_mem_singleton.2 rfl) trivial

theorem accounts_readAll {entries : List (List Token)}
    (within : ∀ entry ∈ entries, Within n stray entry) :
    (readAll source entries).Accounts n stray fun _ => True := by
  induction entries with
  | nil => exact Reading.accounts_pure trivial
  | cons entry entries ih =>
      rw [List.forall_mem_cons] at within
      exact (accounts_read within.1).bind fun _ _ =>
        (ih within.2).bind fun _ _ => Reading.accounts_pure trivial

end Entry

/-- The entries of a command list consist of its tokens. -/
theorem Listing.subset_of_mem {depth : Nat} {entry : List Token}
    (h : entry ∈ (ofTokens depth tokens).entries) : entry ⊆ tokens := by
  induction tokens generalizing depth entry with
  | nil => simp [ofTokens] at h
  | cons token rest ih =>
      rw [ofTokens] at h
      split at h
      · obtain rfl | later := List.mem_cons.1 h
        · exact List.nil_subset _
        · exact List.Subset.trans (ih later) (List.subset_cons_self _ _)
      · split at h
        · obtain rfl := List.mem_singleton.1 h
          exact List.nil_subset _
        · dsimp only at h
          cases others : (ofTokens (Entry.depthAfter depth token.kind) rest).entries with
          | nil => simp [others] at h
          | cons first more =>
              rw [others, List.modifyHead_cons] at h
              obtain rfl | later := List.mem_cons.1 h
              · exact List.cons_subset_cons _ (ih (others ▸ List.mem_cons_self))
              · have inside := ih (others ▸ List.mem_cons_of_mem _ later)
                exact List.Subset.trans inside (List.subset_cons_self _ _)

/-- Behind a command list are the tokens that are left. -/
theorem Listing.suffix_of_rest? {depth : Nat} {rest : List Token}
    (h : (ofTokens depth tokens).rest? = some rest) : rest <:+ tokens := by
  induction tokens generalizing depth with
  | nil => simp [ofTokens] at h
  | cons token others ih =>
      rw [ofTokens] at h
      split at h
      · exact (ih h).trans (List.suffix_cons _ _)
      · split at h
        · obtain rfl := Option.some.inj h
          exact List.suffix_cons _ _
        · exact (ih h).trans (List.suffix_cons _ _)

namespace Line

variable (ended : stop.span.line = n ∧ stop.kind.isStray = false)
include ended

theorem accounts_expect {kind : Kind} {remark : Token → List Remark}
    (within : Within n stray tokens)
    (accounts : ∀ token : Token, token.span.line = n → (token.kind.isStray = true → stray) →
      (Reading.fail (remark token)).Accounts n stray (· <:+ tokens)) :
    (expect stop kind remark tokens).Accounts n stray (· <:+ tokens) := by
  cases tokens with
  | nil => exact accounts stop ended.1 (by simp [ended.2])
  | cons token rest =>
      rw [expect]
      split
      · exact Reading.accounts_pure (List.suffix_cons _ _)
      · have first := within token List.mem_cons_self
        exact accounts token first.1 first.2

theorem accounts_readCall (within : Within n stray tokens) :
    (readCall stop tokens).Accounts n stray (· <:+ tokens) := by
  refine (accounts_expect ended within fun _ => accounts_unexpected).bind fun rest behind => ?_
  refine (accounts_expect ended (within.of_suffix behind) fun _ => accounts_unexpected).imp ?_
  exact fun last further => further.trans behind

theorem accounts_readCount (within : Within n stray tokens) :
    (readCount stop tokens).Accounts n stray fun (_, rest) => rest <:+ tokens := by
  unfold readCount
  split
  · exact accounts_malformed ended.1 (by simp [ended.2])
  next text place rest =>
    split
    · exact Reading.accounts_pure (List.suffix_cons _ _)
    · exact Reading.accounts_fail (within _ List.mem_cons_self).1
  next token rest _ =>
    have first := within token List.mem_cons_self
    exact accounts_malformed first.1 first.2

theorem accounts_readBody (within : Within n stray tokens) :
    (readBody source stop tokens).Accounts n stray fun (_, rest) => rest <:+ tokens := by
  unfold readBody
  refine (Entry.accounts_readAll fun entry member =>
    within.of_subset (Listing.subset_of_mem member)).bind fun body _ => ?_
  split
  next rest closed => exact Reading.accounts_pure (Listing.suffix_of_rest? closed)
  next => exact accounts_malformed ended.1 (by simp [ended.2])

theorem accounts_readLoop (within : Within n stray tokens) :
    (readLoop source stop tokens).Accounts n stray fun (_, rest) => rest <:+ tokens := by
  refine (accounts_expect ended within fun _ => accounts_malformed).bind fun _ opened => ?_
  refine (accounts_readCount ended (within.of_suffix opened)).bind fun (count, _) counted => ?_
  have behind := counted.trans opened
  refine (accounts_expect ended (within.of_suffix behind) fun _ => accounts_malformed).bind
    fun _ parted => ?_
  have behind := parted.trans behind
  refine (accounts_expect ended (within.of_suffix behind) fun _ => accounts_malformed).bind
    fun _ listed => ?_
  have behind := listed.trans behind
  refine (accounts_readBody ended (within.of_suffix behind)).bind fun (body, _) inside => ?_
  have behind := inside.trans behind
  refine (accounts_expect ended (within.of_suffix behind) fun _ => accounts_malformed).bind
    fun _ closed => ?_
  exact Reading.accounts_pure (closed.trans behind)

theorem accounts_readCommand (within : Within n stray (first :: tokens)) :
    (readCommand source stop first tokens).Accounts n stray fun (_, rest) => rest <:+ tokens := by
  have known := within first List.mem_cons_self
  have others := within.of_suffix (List.suffix_cons first tokens)
  unfold readCommand
  split
  · exact (accounts_readCall ended others).bind fun _ behind => Reading.accounts_pure behind
  · exact accounts_readLoop ended others
  · exact Reading.accounts_fail known.1
  · exact accounts_unexpected known.1 known.2

omit ended in
/-- A statement that ends as it should has one more token, a semicolon. -/
theorem accounts_readEnd {last : Token} (here : last.span.line = n)
    (within : Within n stray tokens) :
    (readEnd last tokens).Accounts n stray
      fun _ => ∃ token, tokens = [token] ∧ token.kind = .semicolon := by
  unfold readEnd
  split
  · exact Reading.accounts_fail here
  next token =>
    have known := within token List.mem_cons_self
    split
    next ends => exact Reading.accounts_pure ⟨token, rfl, ends⟩
    next => exact accounts_unexpected known.1 known.2
  next token next rest =>
    have known := within token List.mem_cons_self
    split
    next => exact Reading.accounts_fail (within next (by simp)).1
    next => exact accounts_unexpected known.1 known.2

/-- A line that has tokens is accounted for, and a statement takes all of them, up to the
semicolon at the end. -/
theorem accounts_readStatement (within : Within n stray (first :: tokens)) :
    (readStatement source stop first tokens).Accounts n stray fun statement =>
      statement.span.line = n ∧
        ∃ token, (first :: tokens).getLast? = some token ∧ token.kind = .semicolon := by
  have start := (within first List.mem_cons_self).1
  have others := within.of_suffix (List.suffix_cons first tokens)
  have last : (tokens.getLast?.getD first).span.line = n := by
    cases found : tokens.getLast? with
    | none => exact start
    | some token => exact (others token (List.mem_of_getLast? found)).1
  refine (accounts_readCommand ended within).bind fun (command, tail) behind => ?_
  refine (accounts_readEnd last (others.of_suffix behind)).bind fun _ ends => ?_
  obtain ⟨token, rfl, semicolon⟩ := ends
  refine Reading.accounts_pure ⟨?_, token, ?_, semicolon⟩
  · rw [Span.merge_line, start, last, Nat.min_self]
  · obtain ⟨front, rfl⟩ := behind
    rw [← List.cons_append, List.getLast?_concat]

omit ended in
/-- A line that has tokens is accounted for. -/
theorem accounts_read {line : Line}
    (ended : line.stop.span.line = n ∧ line.stop.kind.isStray = false)
    (within : Within n stray line.tokens) (nonempty : line.tokens ≠ []) :
    (read source line).Accounts n stray fun statement =>
      statement.span.line = n ∧
        ∃ token, line.tokens.getLast? = some token ∧ token.kind = .semicolon := by
  obtain ⟨_ | ⟨first, tokens⟩, stop⟩ := line
  · exact absurd rfl nonempty
  · exact accounts_readStatement ended within

end Line

end Parts

end Rocket

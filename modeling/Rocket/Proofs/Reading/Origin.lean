import Rocket.Proofs.Reading.Accounted

/-!
# What remarks are about

Each remark on the tokens of a line is about one of them, and names what that token is, or
about an entry of a command list, from its first token to its last one. Stray characters are
passed over in silence, with one exception: behind the semicolon of a statement, any token is
remarked on.

## Implementation notes

One condition on remarks is carried through all parts of a statement. What a part is read as
comes with the tokens behind it, which are among those of the line again.
-/

namespace Rocket

open Token (Kind unexpected malformed)

/-- Whether a problem is one of tokens of a kind. What it names is what the token is. -/
def Problem.Concerns (kind : Kind) : Problem → Prop
  | .strayCharacter c => kind = .stray c
  | .unterminatedString => ∃ text, kind = .quoted text
  | .unknownCommand name => kind = .word name
  | .malformedLoop _ found => kind = found
  | .unknownEntry text => ∃ content, kind = .quoted content ∧ text.toList ∈ Entry.calls content
  | .countOutOfRange digits => kind = .digits digits
  | .nestedLoop => False
  | .trailingTokens found => kind = found
  | .missingSemicolon => True
  | .unexpectedToken _ found => kind = found

/-- What a remark on some tokens can be about, other than a stray character: one of the
tokens, or an entry of a command list among them. -/
inductive Remark.Arises (source : Source) (tokens : List Token) : Remark → Prop
  | token {problem : Problem} {token : Token} (member : token ∈ tokens)
      (known : token.kind.isStray = false) (concerns : problem.Concerns token.kind) :
      Arises source tokens ⟨problem, token.span⟩
  | entry {problem : Problem} {first : Token} {others : List Token}
      (inside : first :: others ⊆ tokens)
      (known : ∀ token ∈ first :: others, token.kind.isStray = false)
      (left : problem = .nestedLoop ∨
        problem = .unknownEntry (String.ofList (source.cut (Entry.span first others)))) :
      Arises source tokens ⟨problem, Entry.span first others⟩

namespace Reading

variable {α β : Type} {P : Remark → Prop} {Q : α → Prop} {R : β → Prop}

/-- Whether all remarks of a reading satisfy a condition, and its value another one. -/
structure Ensures (P : Remark → Prop) (Q : α → Prop) (r : Reading α) : Prop where
  remarks : ∀ remark ∈ r.remarks, P remark
  value : ∀ a, r.value? = some a → Q a

theorem ensures_tell {remarks : List Remark} {a : α} (all : ∀ remark ∈ remarks, P remark)
    (value : Q a) : (tell remarks a).Ensures P Q where
  remarks := all
  value := by
    rintro _ ⟨⟩
    exact value

theorem ensures_pure {a : α} (value : Q a) : (pure a : Reading α).Ensures P Q :=
  ensures_tell nofun value

theorem ensures_fail {remarks : List Remark} (all : ∀ remark ∈ remarks, P remark) :
    (fail remarks : Reading α).Ensures P Q :=
  ⟨all, nofun⟩

theorem Ensures.bind {r : Reading α} {f : α → Reading β} (first : r.Ensures P Q)
    (second : ∀ a, Q a → (f a).Ensures P R) : (r >>= f).Ensures P R := by
  obtain ⟨remarks, value?⟩ := r
  cases value? with
  | none => exact ⟨first.remarks, nofun⟩
  | some a =>
      have rest := second a (first.value a rfl)
      exact ⟨List.forall_mem_append.2 ⟨first.remarks, rest.remarks⟩, rest.value⟩

theorem Ensures.imp {r : Reading α} {Q' : α → Prop} (h : r.Ensures P Q)
    (weaker : ∀ a, Q a → Q' a) : r.Ensures P Q' :=
  { h with value := fun a value => weaker a (h.value a value) }

end Reading

section Parts

variable {α : Type} {Q : α → Prop} {source : Source} {all tokens : List Token}
variable {token stop first : Token}

theorem ensures_unexpected {expected : Expected} (member : token ∈ all) :
    (Reading.fail (unexpected expected token) : Reading α).Ensures
      (Remark.Arises source all) Q := by
  refine Reading.ensures_fail ?_
  unfold Token.unexpected
  split
  next => exact List.forall_mem_nil _
  next known =>
    exact List.forall_mem_singleton.2 (.token member (Bool.eq_false_iff.2 known) rfl)

theorem ensures_malformed {expected : Expected} (member : token ∈ all) :
    (Reading.fail (malformed expected token) : Reading α).Ensures (Remark.Arises source all) Q := by
  refine Reading.ensures_fail ?_
  unfold Token.malformed
  split
  next => exact List.forall_mem_nil _
  next known =>
    exact List.forall_mem_singleton.2 (.token member (Bool.eq_false_iff.2 known) rfl)

namespace Entry

theorem ensures_read (inside : tokens ⊆ all) :
    (read source tokens).Ensures (Remark.Arises source all) fun _ => True := by
  unfold read
  split
  · exact Reading.ensures_pure trivial
  next text place =>
    refine Reading.ensures_tell (List.forall_mem_map.2 fun call unknown => ?_) trivial
    refine .token (inside List.mem_cons_self) rfl ⟨text, rfl, ?_⟩
    rw [String.toList_ofList]
    exact (List.mem_filter.1 unknown).1
  · exact Reading.ensures_pure trivial
  next first others _ _ =>
    refine Reading.ensures_tell ?_ trivial
    unfold remarks
    split
    · exact List.forall_mem_nil _
    next known =>
      have plain : ∀ token ∈ first :: others, token.kind.isStray = false := by
        intro token member
        rw [List.any_eq_true] at known
        exact Bool.eq_false_iff.2 fun stray => known ⟨token, member, stray⟩
      split
      · exact List.forall_mem_singleton.2 (.entry inside plain (.inl rfl))
      · exact List.forall_mem_singleton.2 (.entry inside plain (.inr rfl))

theorem ensures_readAll {entries : List (List Token)}
    (inside : ∀ entry ∈ entries, entry ⊆ all) :
    (readAll source entries).Ensures (Remark.Arises source all) fun _ => True := by
  induction entries with
  | nil => exact Reading.ensures_pure trivial
  | cons entry entries ih =>
      rw [List.forall_mem_cons] at inside
      exact (ensures_read inside.1).bind fun _ _ =>
        (ih inside.2).bind fun _ _ => Reading.ensures_pure trivial

end Entry

namespace Line

variable (ended : stop ∈ all)
include ended

theorem ensures_expect {kind : Kind} {remark : Token → List Remark} (inside : tokens ⊆ all)
    (ensures : ∀ token ∈ all, (Reading.fail (remark token) : Reading (List Token)).Ensures
      (Remark.Arises source all) fun rest => ∃ token, tokens = token :: rest ∧ token.kind = kind) :
    (expect stop kind remark tokens).Ensures (Remark.Arises source all)
      fun rest => ∃ token, tokens = token :: rest ∧ token.kind = kind := by
  cases tokens with
  | nil => exact ensures stop ended
  | cons token rest =>
      rw [expect]
      split
      next same => exact Reading.ensures_pure ⟨token, rfl, same⟩
      next => exact ensures token (inside List.mem_cons_self)

/-- A call ends with a closing bracket. -/
theorem ensures_readCall (inside : tokens ⊆ all) :
    (readCall stop tokens).Ensures (Remark.Arises source all) fun rest =>
      ∃ closing, closing :: rest <:+ tokens ∧ closing.kind = .closeParen := by
  refine (ensures_expect ended inside fun _ => ensures_unexpected).bind fun rest opened => ?_
  obtain ⟨opening, rfl, -⟩ := opened
  refine (ensures_expect ended (List.cons_subset.1 inside).2 fun _ => ensures_unexpected).imp ?_
  rintro last ⟨closing, rfl, same⟩
  exact ⟨closing, List.suffix_cons _ _, same⟩

theorem ensures_readCount (inside : tokens ⊆ all) :
    (readCount stop tokens).Ensures (Remark.Arises source all)
      fun (_, rest) => rest <:+ tokens := by
  unfold readCount
  split
  · exact ensures_malformed ended
  next text place rest =>
    split
    · exact Reading.ensures_pure (List.suffix_cons _ _)
    · have number : (⟨.digits text, place⟩ : Token) ∈ all := inside List.mem_cons_self
      exact Reading.ensures_fail (List.forall_mem_singleton.2 (.token number rfl rfl))
  next => exact ensures_malformed (inside List.mem_cons_self)

theorem ensures_readBody (inside : tokens ⊆ all) :
    (readBody source stop tokens).Ensures (Remark.Arises source all)
      fun (_, rest) => rest <:+ tokens := by
  unfold readBody
  refine (Entry.ensures_readAll fun entry member =>
    List.Subset.trans (Listing.subset_of_mem member) inside).bind fun body _ => ?_
  split
  next rest closed => exact Reading.ensures_pure (Listing.suffix_of_rest? closed)
  next => exact ensures_malformed ended

/-- A repetition ends with a closing bracket. -/
theorem ensures_readLoop (inside : tokens ⊆ all) :
    (readLoop source stop tokens).Ensures (Remark.Arises source all) fun (_, rest) =>
      ∃ closing, closing :: rest <:+ tokens ∧ closing.kind = .closeParen := by
  refine (ensures_expect ended inside fun _ => ensures_malformed).bind fun _ opened => ?_
  obtain ⟨_, rfl, -⟩ := opened
  have inside := (List.cons_subset.1 inside).2
  refine (ensures_readCount ended inside).bind fun (count, _) counted => ?_
  refine (ensures_expect ended (List.Subset.trans counted.subset inside) fun _ =>
    ensures_malformed).bind fun _ parted => ?_
  obtain ⟨_, rfl, -⟩ := parted
  have behind := (List.suffix_cons _ _).trans counted
  refine (ensures_expect ended (List.Subset.trans behind.subset inside) fun _ =>
    ensures_malformed).bind fun _ listed => ?_
  obtain ⟨_, rfl, -⟩ := listed
  have behind := (List.suffix_cons _ _).trans behind
  refine (ensures_readBody ended (List.Subset.trans behind.subset inside)).bind
    fun (body, _) closed => ?_
  have behind := closed.trans behind
  refine (ensures_expect ended (List.Subset.trans behind.subset inside) fun _ =>
    ensures_malformed).bind fun _ last => ?_
  obtain ⟨closing, rfl, same⟩ := last
  exact Reading.ensures_pure ⟨closing, behind.trans (List.suffix_cons _ _), same⟩

/-- A command that is understood ends with a closing bracket. -/
theorem ensures_readCommand (inside : first :: tokens ⊆ all) :
    (readCommand source stop first tokens).Ensures (Remark.Arises source all) fun (_, rest) =>
      ∃ closing, closing :: rest <:+ tokens ∧ closing.kind = .closeParen := by
  obtain ⟨known, others⟩ := List.cons_subset.1 inside
  unfold readCommand
  split
  · exact (ensures_readCall ended others).bind fun _ closed => Reading.ensures_pure closed
  · exact ensures_readLoop ended others
  next name word =>
    refine Reading.ensures_fail (List.forall_mem_singleton.2 ?_)
    exact .token known (by rw [word]; rfl) word
  · exact ensures_unexpected known

omit ended in
/-- What is remarked at the end of a statement is on one of its tokens, or on the token
behind its semicolon. `last` is the last token of the line. -/
theorem arises_or_trailing_of_readEnd {last : Token} {remark : Remark} (inside : tokens ⊆ all)
    (closed : tokens = [] → last ∈ all ∧ last.kind.isStray = false)
    (member : remark ∈ (readEnd last tokens).remarks) :
    remark.Arises source all ∨ ∃ semicolon next rest, tokens = semicolon :: next :: rest ∧
      semicolon.kind = .semicolon ∧ remark = ⟨.trailingTokens next.kind, next.span⟩ := by
  have wrong : ∀ token ∈ all, remark ∈ unexpected .semicolon token → remark.Arises source all :=
    fun token known member =>
      (ensures_unexpected (α := Unit) (Q := fun _ => True) known).remarks remark member
  unfold readEnd at member
  split at member
  · obtain rfl := List.mem_singleton.1 member
    obtain ⟨known, plain⟩ := closed rfl
    exact .inl (.token known plain trivial)
  next token =>
    split at member
    · cases member
    · exact .inl (wrong token (inside List.mem_cons_self) member)
  next token next rest =>
    split at member
    next ends =>
      obtain rfl := List.mem_singleton.1 member
      exact .inr ⟨token, next, rest, rfl, ends, rfl⟩
    next => exact .inl (wrong token (inside List.mem_cons_self) member)

/-- What is remarked on the tokens of a line is on a token that is no stray character, or
on the token behind a complete statement. -/
theorem arises_or_trailing_of_mem {remark : Remark} (inside : first :: tokens ⊆ all)
    (member : remark ∈ (readStatement source stop first tokens).remarks) :
    remark.Arises source all ∨ ∃ command semicolon next rest,
      (readCommand source stop first tokens).value? =
          some (command, semicolon :: next :: rest) ∧
        semicolon.kind = .semicolon ∧ remark = ⟨.trailingTokens next.kind, next.span⟩ := by
  have ensures : (readCommand source stop first tokens).Ensures _ _ :=
    ensures_readCommand ended inside
  unfold readStatement at member
  generalize readCommand source stop first tokens = read at member ensures ⊢
  obtain ⟨remarks, value?⟩ := read
  cases value? with
  | none => exact .inl (ensures.remarks remark member)
  | some value =>
      obtain ⟨command, tail⟩ := value
      obtain early | late := List.mem_append.1 member
      · exact .inl (ensures.remarks remark early)
      · obtain ⟨closing, suffix, closes⟩ := ensures.value _ rfl
        have behind := (List.suffix_cons closing tail).trans suffix
        have closed : tail = [] → (tokens.getLast?.getD first) ∈ all ∧
            (tokens.getLast?.getD first).kind.isStray = false := by
          -- With nothing behind the command, its bracket is the last token of the line.
          rintro rfl
          obtain ⟨front, rfl⟩ := suffix
          rw [List.getLast?_concat, Option.getD_some]
          exact ⟨inside (List.mem_cons_of_mem _ (by simp)), by rw [closes]; rfl⟩
        simp only [bind_pure_comp, Reading.remarks_map] at late
        obtain known | ⟨semicolon, next, rest, rfl, ends, rfl⟩ :=
          arises_or_trailing_of_readEnd
            (List.Subset.trans behind.subset (List.cons_subset.1 inside).2) closed late
        · exact .inl known
        · exact .inr ⟨command, semicolon, next, rest, rfl, ends, rfl⟩

/-- The tokens of a line, and the one that ends it. -/
def allTokens (line : Line) : List Token :=
  line.tokens ++ [line.stop]

omit ended in
/-- What is remarked on a line is on a token that is no stray character, on an entry, or on
a token behind a statement. -/
theorem arises_or_trailing_of_mem_read {line : Line} {remark : Remark}
    (member : remark ∈ (read source line).remarks) :
    remark.Arises source line.allTokens ∨
      ∃ token ∈ line.tokens, remark = ⟨.trailingTokens token.kind, token.span⟩ := by
  obtain ⟨tokens, stop⟩ := line
  cases tokens with
  | nil => cases member
  | cons first tokens =>
      have ended : stop ∈ allTokens ⟨first :: tokens, stop⟩ :=
        List.mem_append_right _ (List.mem_singleton_self stop)
      have inside : first :: tokens ⊆ allTokens ⟨first :: tokens, stop⟩ :=
        List.subset_append_left _ _
      obtain known | ⟨command, semicolon, next, rest, commanded, -, rfl⟩ :=
        arises_or_trailing_of_mem ended inside member
      · exact .inl known
      · obtain ⟨closing, behind, -⟩ := (ensures_readCommand ended inside).value _ commanded
        exact .inr ⟨next, List.mem_cons_of_mem _ (behind.subset (by simp)), rfl⟩

end Line

end Parts

end Rocket

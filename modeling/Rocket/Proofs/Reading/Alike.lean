import Rocket.Proofs.Reading.Grammar

/-!
# Readings that are alike

What a line is read as depends on the kinds of its tokens alone: neither their
places nor the source they are quoted from has a part in it. Two readings are alike
if they remark on problems of the same codes, in the same order, and their values
correspond.

## Implementation notes

The texts of the remarks do quote the source and name the token that ends the line,
so it is their codes that agree. Not even the whole of a kind matters at the end of a
line: a string literal there has no comma or bracket behind it and is no finished entry,
so that its text is never looked into.
-/

namespace Rocket

open Token (Kind unexpected malformed)

/-- The codes of remarks. -/
def Remark.codes (remarks : List Remark) : List Code :=
  remarks.map (·.problem.code)

theorem Remark.codes_append (front back : List Remark) :
    codes (front ++ back) = codes front ++ codes back :=
  List.map_append

namespace Reading

variable {α β γ δ : Type} {R : α → β → Prop} {S : γ → δ → Prop}

/-- Remarks of the same codes, and values that correspond. -/
structure Alike (R : α → β → Prop) (r : Reading α) (s : Reading β) : Prop where
  codes : Remark.codes r.remarks = Remark.codes s.remarks
  values : Option.Rel R r.value? s.value?

theorem alike_pure {a : α} {b : β} (h : R a b) : Alike R (pure a) (pure b) :=
  ⟨rfl, .some h⟩

theorem alike_tell {front back : List Remark} {a : α} {b : β}
    (codes : Remark.codes front = Remark.codes back) (h : R a b) :
    Alike R (tell front a) (tell back b) :=
  ⟨codes, .some h⟩

theorem alike_fail {front back : List Remark} (codes : Remark.codes front = Remark.codes back) :
    Alike R (fail front) (fail back) :=
  ⟨codes, .none⟩

/-- Composites are alike if their parts are. -/
theorem Alike.bind {r : Reading α} {s : Reading β} {f : α → Reading γ} {g : β → Reading δ}
    (first : Alike R r s) (second : ∀ a b, R a b → Alike S (f a) (g b)) :
    Alike S (r >>= f) (s >>= g) := by
  obtain ⟨front, value?⟩ := r
  obtain ⟨back, value?'⟩ := s
  obtain ⟨codes, values⟩ := first
  cases values with
  | none => exact ⟨codes, .none⟩
  | @some a b related =>
      obtain ⟨codes', values'⟩ := second a b related
      refine ⟨?_, values'⟩
      simp only [Bind.bind, andThen, Remark.codes_append]
      rw [codes, codes']

end Reading

/-- Tokens of the same kinds, in order. -/
def SameKinds (tokens others : List Token) : Prop :=
  tokens.map (·.kind) = others.map (·.kind)

namespace SameKinds

variable {tokens others : List Token} {token : Token}

theorem nil_left (h : SameKinds [] others) : others = [] :=
  List.map_eq_nil_iff.1 h.symm

/-- What has the kinds of a list with a first token has a first token itself. -/
theorem cons_left (h : SameKinds (token :: tokens) others) :
    ∃ other rest, others = other :: rest ∧ other.kind = token.kind ∧ SameKinds tokens rest := by
  obtain ⟨place, rest, rfl, kinds⟩ := Grammar.exists_cons_of_kinds h.symm
  exact ⟨_, rest, rfl, rfl, kinds.symm⟩

theorem cons {other : Token} (kind : other.kind = token.kind) (h : SameKinds tokens others) :
    SameKinds (token :: tokens) (other :: others) := by
  rw [SameKinds, List.map_cons, List.map_cons, kind, h]

end SameKinds

/-- Tokens that a line can have in place of others: of the same kinds, in order, except
that a string literal at the end may have another text. -/
inductive Akin : List Token → List Token → Prop
  | nil : Akin [] []
  | cons {token other : Token} {tokens others : List Token} (kind : other.kind = token.kind)
      (tail : Akin tokens others) : Akin (token :: tokens) (other :: others)
  | literal {token other : Token} {text text' : String} (kind : token.kind = .quoted text)
      (kind' : other.kind = .quoted text') : Akin [token] [other]

theorem SameKinds.akin {tokens others : List Token} (h : SameKinds tokens others) :
    Akin tokens others := by
  induction tokens generalizing others with
  | nil =>
      obtain rfl := h.nil_left
      exact .nil
  | cons token tokens ih =>
      obtain ⟨other, rest, rfl, kind, tail⟩ := h.cons_left
      exact .cons kind (ih tail)

namespace Line

variable {source source' : Source} {stop stop' : Token} {tokens tokens' : List Token}

/-! ## Marks and counts -/

theorem codes_unexpected (expected : Expected) {token other : Token}
    (same : token.kind.isStray = other.kind.isStray) :
    Remark.codes (unexpected expected token) = Remark.codes (unexpected expected other) := by
  rw [unexpected, unexpected, same]
  split <;> rfl

theorem codes_malformed (expected : Expected) {token other : Token}
    (same : token.kind.isStray = other.kind.isStray) :
    Remark.codes (malformed expected token) = Remark.codes (malformed expected other) := by
  rw [malformed, malformed, same]
  split <;> rfl

theorem alike_readEnd (last last' : Token) (h : Akin tokens tokens') :
    Reading.Alike (· = ·) (readEnd last tokens) (readEnd last' tokens') := by
  cases h with
  | nil => exact Reading.alike_fail rfl
  | cons kind tail =>
      cases tail with
      | nil =>
          rw [readEnd, readEnd, kind]
          split
          · exact Reading.alike_pure rfl
          · exact Reading.alike_fail (codes_unexpected _ (by rw [kind]))
      | cons _ _ | literal _ _ =>
          rw [readEnd, readEnd, kind]
          split
          · exact Reading.alike_fail rfl
          · exact Reading.alike_fail (codes_unexpected _ (by rw [kind]))
  | literal kind kind' =>
      rw [readEnd, readEnd, kind, kind', if_neg nofun, if_neg nofun]
      exact Reading.alike_fail (codes_unexpected _ (by rw [kind, kind']; rfl))

section Ended

variable (ended : stop.kind.isStray = stop'.kind.isStray)
include ended

/-- No string literal is asked for, so that the text of one does not matter. -/
theorem alike_expect (kind : Kind) (mark : ∀ text, .quoted text ≠ kind)
    {remark : Token → List Remark} (h : Akin tokens tokens')
    (codes : ∀ {token other : Token}, token.kind.isStray = other.kind.isStray →
      Remark.codes (remark token) = Remark.codes (remark other)) :
    Reading.Alike Akin (expect stop kind remark tokens) (expect stop' kind remark tokens') := by
  cases h with
  | nil => exact Reading.alike_fail (codes ended)
  | cons same tail =>
      rw [expect, expect, same]
      split
      · exact Reading.alike_pure tail
      · exact Reading.alike_fail (codes (by rw [same]))
  | literal first second =>
      rw [expect, expect, first, second, if_neg (mark _), if_neg (mark _)]
      exact Reading.alike_fail (codes (by rw [first, second]; rfl))

theorem alike_readCall (h : Akin tokens tokens') :
    Reading.Alike Akin (readCall stop tokens) (readCall stop' tokens') := by
  refine (alike_expect ended .openParen nofun h (codes_unexpected _)).bind fun _ _ behind => ?_
  exact alike_expect ended .closeParen nofun behind (codes_unexpected _)

/-- Values that agree, in front of akin tokens. -/
def AkinFront {α : Type} (a b : α × List Token) : Prop :=
  a.1 = b.1 ∧ Akin a.2 b.2

omit ended in
/-- A string literal is no count. -/
theorem readCount_of_quoted {token : Token} {text : String} (kind : token.kind = .quoted text)
    (rest : List Token) : readCount stop (token :: rest) = .fail (malformed .loopCount token) := by
  obtain ⟨_, place⟩ := token
  obtain rfl := kind
  rfl

theorem alike_readCount (h : Akin tokens tokens') :
    Reading.Alike AkinFront (readCount stop tokens) (readCount stop' tokens') := by
  cases h with
  | nil => exact Reading.alike_fail (codes_malformed _ ended)
  | @cons token other _ _ same tail =>
      obtain ⟨kind, place⟩ := other
      obtain ⟨_, place'⟩ := token
      obtain rfl := same
      cases kind with
      | digits text =>
          rw [readCount, readCount]
          split
          · exact Reading.alike_pure ⟨rfl, tail⟩
          · exact Reading.alike_fail rfl
      | _ => exact Reading.alike_fail (codes_malformed _ rfl)
  | literal first second =>
      rw [readCount_of_quoted first, readCount_of_quoted second]
      exact Reading.alike_fail (codes_malformed _ (by rw [first, second]; rfl))

end Ended

end Line

/-! ## Command lists -/

/-- Command lists cut alike. -/
structure SameListing (listing other : Listing) : Prop where
  entries : listing.entries.map (·.map (·.kind)) = other.entries.map (·.map (·.kind))
  rest? : Option.Rel Akin listing.rest? other.rest?

/-- A string literal at the end of its line is no finished entry. -/
theorem listing_of_quoted (depth : Nat) {token : Token} {text : String}
    (kind : token.kind = .quoted text) : Listing.ofTokens depth [token] = ⟨[], none⟩ := by
  rw [Listing.ofTokens, kind]
  simp [Listing.ofTokens]

/-- The kinds decide where the entries and the list end. -/
theorem sameListing_ofTokens (depth : Nat) {tokens others : List Token}
    (h : Akin tokens others) :
    SameListing (Listing.ofTokens depth tokens) (Listing.ofTokens depth others) := by
  induction h generalizing depth with
  | nil => exact ⟨rfl, .none⟩
  | @cons token other tokens rest kind tail ih =>
      rw [Listing.ofTokens, Listing.ofTokens, kind]
      split
      · obtain ⟨entries, behind⟩ := ih 0
        refine ⟨?_, behind⟩
        simp only [List.map_cons, entries]
      · split
        · exact ⟨rfl, .some tail⟩
        · obtain ⟨entries, behind⟩ := ih (Entry.depthAfter depth token.kind)
          refine ⟨?_, behind⟩
          dsimp only
          generalize (Listing.ofTokens _ tokens).entries = front at entries
          generalize (Listing.ofTokens _ rest).entries = back at entries
          cases front with
          | nil =>
              obtain rfl := List.map_eq_nil_iff.1 entries.symm
              rfl
          | cons entry front =>
              obtain ⟨entry', back, rfl, same, more⟩ := List.map_eq_cons_iff.1 entries.symm
              simp [kind, same, more]
  | literal first second =>
      rw [listing_of_quoted depth first, listing_of_quoted depth second]
      exact ⟨rfl, .none⟩

namespace Entry

variable {source source' : Source}

theorem any_isStray_of_sameKinds {tokens others : List Token} (h : SameKinds tokens others) :
    tokens.any (·.kind.isStray) = others.any (·.kind.isStray) := by
  have mapped := congrArg (List.any · Kind.isStray) h
  simpa only [List.any_map, Function.comp_def] using mapped

theorem codes_remarks {first first' : Token} {others others' : List Token}
    (kind : first'.kind = first.kind) (h : SameKinds others others') :
    Remark.codes (remarks source first others) = Remark.codes (remarks source' first' others') := by
  rw [remarks, remarks, any_isStray_of_sameKinds (h.cons kind), kind]
  split
  · rfl
  · split <;> rfl

theorem alike_ofQuoted (place place' : Span) (text : String) :
    Reading.Alike (· = ·) (ofQuoted place text) (ofQuoted place' text) := by
  refine Reading.alike_tell ?_ rfl
  rw [Remark.codes, Remark.codes, List.map_map, List.map_map]
  rfl

/-- Whether kinds are those of a quoted text or of a call. -/
def IsKnown (kinds : List Kind) : Prop :=
  (∃ text, kinds = [.quoted text]) ∨ ∃ p, kinds = [.primitive p, .openParen, .closeParen]

/-- An entry that is neither a quoted text nor a call has no actions. -/
theorem read_of_not_isKnown {first : Token} {others : List Token}
    (h : ¬ IsKnown ((first :: others).map (·.kind))) :
    read source (first :: others) = .tell (remarks source first others) [] := by
  generalize shape : first :: others = entry at h
  unfold read
  split
  · cases shape
  next text place => exact absurd (.inl ⟨text, rfl⟩) h
  next p _ _ _ => exact absurd (.inr ⟨p, rfl⟩) h
  next =>
    obtain ⟨rfl, rfl⟩ := List.cons.inj shape
    rfl

/-- The kinds of an entry decide whether it is a quoted text, a call or neither. -/
theorem alike_read {entry entry' : List Token} (h : SameKinds entry entry') :
    Reading.Alike (· = ·) (read source entry) (read source' entry') := by
  by_cases known : IsKnown (entry.map (·.kind))
  · obtain ⟨text, shape⟩ | ⟨p, shape⟩ := known
    · obtain ⟨place, _, rfl, afterText⟩ := Grammar.exists_cons_of_kinds shape
      obtain rfl := List.map_eq_nil_iff.1 afterText
      obtain ⟨⟨_, place'⟩, _, rfl, rfl, tail⟩ := h.cons_left
      obtain rfl := tail.nil_left
      exact alike_ofQuoted place place' text
    · obtain ⟨a, _, rfl, afterName⟩ := Grammar.exists_cons_of_kinds shape
      obtain ⟨b, _, rfl, afterOpen⟩ := Grammar.exists_cons_of_kinds afterName
      obtain ⟨c, _, rfl, afterClose⟩ := Grammar.exists_cons_of_kinds afterOpen
      obtain rfl := List.map_eq_nil_iff.1 afterClose
      obtain ⟨⟨_, a'⟩, _, rfl, rfl, behindName⟩ := h.cons_left
      obtain ⟨⟨_, b'⟩, _, rfl, rfl, behindOpen⟩ := behindName.cons_left
      obtain ⟨⟨_, c'⟩, _, rfl, rfl, behindClose⟩ := behindOpen.cons_left
      obtain rfl := behindClose.nil_left
      exact Reading.alike_pure rfl
  · cases entry with
    | nil =>
        obtain rfl := h.nil_left
        exact Reading.alike_pure rfl
    | cons first others =>
        obtain ⟨first', others', rfl, kind, tail⟩ := h.cons_left
        have unknown := known
        rw [h] at unknown
        rw [read_of_not_isKnown known, read_of_not_isKnown unknown]
        exact Reading.alike_tell (codes_remarks kind tail) rfl

theorem alike_readAll {entries entries' : List (List Token)}
    (h : entries.map (·.map (·.kind)) = entries'.map (·.map (·.kind))) :
    Reading.Alike (· = ·) (readAll source entries) (readAll source' entries') := by
  induction entries generalizing entries' with
  | nil =>
      obtain rfl := List.map_eq_nil_iff.1 h.symm
      exact Reading.alike_pure rfl
  | cons entry entries ih =>
      obtain ⟨entry', others, rfl, same, more⟩ := List.map_eq_cons_iff.1 h.symm
      refine (alike_read same.symm).bind fun actions _ first => ?_
      refine (ih more.symm).bind fun rest _ second => ?_
      exact Reading.alike_pure (by rw [first, second])

end Entry

/-! ## Whole lines -/

namespace Line

variable {source source' : Source} {stop stop' : Token} {tokens tokens' : List Token}
  (ended : stop.kind.isStray = stop'.kind.isStray)
include ended

theorem alike_readBody (h : Akin tokens tokens') :
    Reading.Alike AkinFront (readBody source stop tokens) (readBody source' stop' tokens') := by
  obtain ⟨entries, behind⟩ := sameListing_ofTokens 0 h
  refine (Entry.alike_readAll entries).bind fun body _ same => ?_
  obtain rfl := same
  generalize (Listing.ofTokens 0 tokens).rest? = rest? at behind
  generalize (Listing.ofTokens 0 tokens').rest? = rest?' at behind
  cases behind with
  | none => exact Reading.alike_fail (codes_malformed _ ended)
  | some tail => exact Reading.alike_pure ⟨rfl, tail⟩

theorem alike_readLoop (h : Akin tokens tokens') :
    Reading.Alike AkinFront (readLoop source stop tokens) (readLoop source' stop' tokens') := by
  refine (alike_expect ended .openParen nofun h (codes_malformed _)).bind fun _ _ opened => ?_
  refine (alike_readCount ended opened).bind fun (count, _) (_, _) counted => ?_
  obtain ⟨rfl, counted⟩ := counted
  refine (alike_expect ended .comma nofun counted (codes_malformed _)).bind fun _ _ parted => ?_
  refine (alike_expect ended .openBracket nofun parted (codes_malformed _)).bind
    fun _ _ listed => ?_
  refine (alike_readBody ended listed).bind fun (body, _) (_, _) inside => ?_
  obtain ⟨rfl, inside⟩ := inside
  refine (alike_expect ended .closeParen nofun inside (codes_malformed _)).bind
    fun _ _ closed => ?_
  exact Reading.alike_pure ⟨rfl, closed⟩

theorem alike_readCommand {first first' : Token} (kind : first'.kind = first.kind)
    (h : Akin tokens tokens') :
    Reading.Alike AkinFront (readCommand source stop first tokens)
      (readCommand source' stop' first' tokens') := by
  rw [readCommand, readCommand, kind]
  split
  · exact (alike_readCall ended h).bind fun _ _ called => Reading.alike_pure ⟨rfl, called⟩
  · exact alike_readLoop ended h
  · exact Reading.alike_fail rfl
  · exact Reading.alike_fail (codes_unexpected _ (by rw [kind]))

omit ended in
/-- No statement starts with a string literal. -/
theorem readStatement_of_quoted {first : Token} {text : String} (kind : first.kind = .quoted text)
    (rest : List Token) :
    readStatement source stop first rest = .fail (unexpected .command first) := by
  rw [readStatement, readCommand, kind]
  rfl

end Line

/-- Lines of akin tokens are read alike, as the same command. -/
theorem Line.alike_read {source source' : Source} {line line' : Line}
    (ended : line.stop.kind.isStray = line'.stop.kind.isStray)
    (h : Akin line.tokens line'.tokens) :
    Reading.Alike (fun statement other => statement.command = other.command)
      (Line.read source line) (Line.read source' line') := by
  obtain ⟨tokens, stop⟩ := line
  obtain ⟨tokens', stop'⟩ := line'
  dsimp only at h
  cases h with
  | nil => exact Reading.alike_fail rfl
  | cons kind tail =>
      refine (alike_readCommand ended kind tail).bind fun (command, _) (_, _) read => ?_
      obtain ⟨rfl, behind⟩ := read
      exact (alike_readEnd _ _ behind).bind fun _ _ _ => Reading.alike_pure rfl
  | literal first second =>
      dsimp only [read]
      rw [readStatement_of_quoted first, readStatement_of_quoted second]
      exact Reading.alike_fail (codes_unexpected _ (by rw [first, second]; rfl))

end Rocket

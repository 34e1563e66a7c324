import Rocket.Proofs.Json.Reader

/-!
# Reading only what the grammar writes

What the reader takes for a value is written as one, so that it reads the documents of the
grammar and no others.

## Implementation notes

A call with more fuel is looked into by its first step. What the calls of this step read is
written by the induction hypothesis, and the step puts it together as the grammar does.
-/

namespace Rocket.Json

variable {cs rest : List Char} {value : Json} {fuel : Nat}

/-! ## Blanks and strings -/

theorem exists_blank_append (cs : List Char) :
    ∃ blanks, IsBlank blanks ∧ cs = blanks ++ skipSpace cs :=
  ⟨cs.takeWhile isSpace, fun _ inside => List.mem_takeWhile_imp inside,
    List.takeWhile_append_dropWhile.symm⟩

theorem exists_of_skipSpace {tail : List Char} (h : skipSpace cs = tail) :
    ∃ blanks, IsBlank blanks ∧ cs = blanks ++ tail := by
  subst h
  exact exists_blank_append cs

/-- What is read as code points and units stands for them. -/
theorem exists_of_units {codes : List Nat} (h : units cs = some (codes, rest)) :
    ∃ inside, cs = inside ++ '"' :: rest ∧ Units inside codes := by
  fun_induction units cs generalizing codes with
  | case1 => cases h
  | case2 =>
      obtain ⟨rfl, rfl⟩ := Prod.mk.inj (Option.some.inj h)
      exact ⟨[], rfl, .nil⟩
  | case3 => cases h
  | case4 a b c d tail ih =>
      obtain ⟨code, escape, behind⟩ := Option.bind_eq_some_iff.1 h
      obtain ⟨⟨more, _⟩, read, same⟩ := Option.bind_eq_some_iff.1 behind
      obtain ⟨rfl, rfl⟩ := Prod.mk.inj (Option.some.inj same)
      obtain ⟨inside, rfl, units⟩ := ih read
      exact ⟨_, rfl, .unit escape units⟩
  | case5 letter tail _ ih =>
      obtain ⟨code, escape, behind⟩ := Option.bind_eq_some_iff.1 h
      obtain ⟨⟨more, _⟩, read, same⟩ := Option.bind_eq_some_iff.1 behind
      obtain ⟨rfl, rfl⟩ := Prod.mk.inj (Option.some.inj same)
      obtain ⟨inside, rfl, units⟩ := ih read
      exact ⟨_, rfl, .letter escape units⟩
  | case6 => cases h
  | case7 c tail quote _ _ backslash printable ih =>
      obtain ⟨⟨more, _⟩, read, same⟩ := Option.bind_eq_some_iff.1 h
      obtain ⟨rfl, rfl⟩ := Prod.mk.inj (Option.some.inj same)
      obtain ⟨inside, rfl, units⟩ := ih read
      refine ⟨c :: inside, rfl, .char (Nat.not_lt.1 printable) quote ?_ units⟩
      obtain ⟨next, tail, more⟩ := List.exists_cons_of_ne_nil
        (List.append_ne_nil_of_right_ne_nil inside (List.cons_ne_nil '"' _))
      exact fun escaped => backslash next tail escaped more

/-- What is read as a string literal is one. -/
theorem exists_of_readText {text? : Option String} (h : readText cs = some (text?, rest)) :
    ∃ inside, cs = inside ++ '"' :: rest ∧ WritesText inside text? := by
  obtain ⟨⟨codes, _⟩, read, same⟩ := Option.map_eq_some_iff.1 h
  obtain ⟨rfl, rfl⟩ := Prod.mk.inj same
  obtain ⟨inside, rfl, units⟩ := exists_of_units read
  exact ⟨inside, rfl, codes, units, fun text => map_assemble_eq_some_iff⟩

/-! ## Numbers -/

theorem eq_of_splitDigits {digits : List Char} (h : splitDigits cs = some (digits, rest)) :
    cs = digits ++ rest ∧ IsDigits digits := by
  dsimp only [splitDigits] at h
  split at h
  next => cases h
  next some =>
    obtain ⟨rfl, rfl⟩ := Prod.mk.inj (Option.some.inj h)
    refine ⟨List.takeWhile_append_dropWhile.symm, ?_, fun c inside => List.mem_takeWhile_imp inside⟩
    simpa using some

theorem exists_of_skipFraction (h : skipFraction cs = some rest) :
    ∃ fraction, cs = fraction ++ rest ∧ IsFraction fraction := by
  unfold skipFraction at h
  split at h
  next tail =>
    obtain ⟨⟨digits, _⟩, split, rfl⟩ := Option.map_eq_some_iff.1 h
    obtain ⟨rfl, whole⟩ := eq_of_splitDigits split
    exact ⟨_, rfl, .some whole⟩
  next =>
    obtain rfl := Option.some.inj h
    exact ⟨[], rfl, .none⟩

theorem exists_sign (cs : List Char) :
    ∃ sign, cs = sign ++ dropExponentSign cs ∧ (sign = [] ∨ sign = ['+'] ∨ sign = ['-']) := by
  unfold dropExponentSign
  split
  · exact ⟨['+'], rfl, .inr (.inl rfl)⟩
  · exact ⟨['-'], rfl, .inr (.inr rfl)⟩
  · exact ⟨[], rfl, .inl rfl⟩

theorem exists_of_skipExponent (h : skipExponent cs = some rest) :
    ∃ exponent, cs = exponent ++ rest ∧ IsExponent exponent := by
  have marked : ∀ {mark tail}, (mark = 'e' ∨ mark = 'E') →
      (splitDigits (dropExponentSign tail)).map (·.2) = some rest →
        ∃ exponent, mark :: tail = exponent ++ rest ∧ IsExponent exponent := by
    intro mark tail marked h
    obtain ⟨⟨digits, _⟩, split, rfl⟩ := Option.map_eq_some_iff.1 h
    obtain ⟨sign, signed, kind⟩ := exists_sign tail
    obtain ⟨unsigned, whole⟩ := eq_of_splitDigits split
    refine ⟨_, ?_, .some marked kind whole⟩
    rw [List.cons_append, List.append_assoc, ← unsigned, ← signed]
  unfold skipExponent at h
  split at h
  next => exact marked (.inl rfl) h
  next => exact marked (.inr rfl) h
  next =>
    obtain rfl := Option.some.inj h
    exact ⟨[], rfl, .none⟩

theorem exists_splitSign (cs : List Char) :
    ∃ sign, (sign = [] ∨ sign = ['-']) ∧ cs = sign ++ (splitSign cs).2 ∧
      (splitSign cs).1 = decide (sign = ['-']) := by
  unfold splitSign
  split
  · exact ⟨['-'], .inr rfl, rfl, rfl⟩
  · exact ⟨[], .inl rfl, rfl, rfl⟩

/-- What is read as a number is one. -/
theorem exists_of_readNumber (h : readNumber cs = some (value, rest)) :
    ∃ text, cs = text ++ rest ∧ WritesNumber text value := by
  have found := h
  obtain ⟨sign, signed, split, negative⟩ := exists_splitSign cs
  rw [readNumber] at h
  generalize parts : splitSign cs = parted at h split negative
  obtain ⟨_, unsigned⟩ := parted
  obtain ⟨⟨digits, behind⟩, digital, pointing⟩ := Option.bind_eq_some_iff.1 h
  dsimp only at pointing
  split at pointing
  next => cases pointing
  next plain =>
    obtain ⟨power, pointed, powering⟩ := Option.bind_eq_some_iff.1 pointing
    obtain ⟨last, powered, -⟩ := Option.bind_eq_some_iff.1 powering
    obtain ⟨whole, digitsOnly⟩ := eq_of_splitDigits digital
    obtain ⟨fraction, rfl, point⟩ := exists_of_skipFraction pointed
    obtain ⟨exponent, rfl, marked⟩ := exists_of_skipExponent powered
    dsimp only at split negative
    have text : cs = sign ++ (digits ++ (fraction ++ exponent)) ++ last := by
      rw [split, whole]
      simp only [List.append_assoc]
    have read := readNumber_of_parts (by rw [parts, negative]) digital plain pointed powered text
      (List.append_assoc ..).symm
    rw [read] at found
    obtain ⟨rfl, rfl⟩ := Prod.mk.inj (Option.some.inj found)
    exact ⟨_, text, signed, digitsOnly, (plain_iff digitsOnly).2 plain, point, marked⟩

/-! ## Values -/

/-- Whether calls with some fuel read what is written only, and leave what is behind it. -/
structure ReadsWritten (fuel : Nat) : Prop where
  value : ∀ {cs value rest}, readValue fuel cs = some (value, rest) →
    ∃ before text, IsBlank before ∧ Written (.value value) text ∧ cs = before ++ (text ++ rest)
  items : ∀ {cs list rest}, readItems fuel cs = some (list, rest) →
    ∃ text, Written (.items list) text ∧ cs = text ++ ']' :: rest
  members : ∀ {cs list rest}, readMembers fuel cs = some (list, rest) →
    ∃ text, Written (.members list) text ∧ cs = text ++ '}' :: rest

theorem readsWritten_zero : ReadsWritten 0 where
  value read := by
    rw [readValue] at read
    cases read
  items read := by
    rw [readItems] at read
    cases read
  members read := by
    rw [readMembers] at read
    cases read

namespace ReadsWritten

theorem element (h : ReadsWritten fuel) (read : readValue fuel cs = some (value, rest))
    {tail : List Char} (behind : skipSpace rest = tail) :
    ∃ text, Written (.element value) text ∧ cs = text ++ tail := by
  obtain ⟨before, text, front, written, rfl⟩ := h.value read
  obtain ⟨after, back, rfl⟩ := exists_of_skipSpace behind
  exact ⟨_, .element front written back, by simp⟩

theorem value_succ (h : ReadsWritten fuel) (read : readValue (fuel + 1) cs = some (value, rest)) :
    ∃ before text, IsBlank before ∧ Written (.value value) text ∧
      cs = before ++ (text ++ rest) := by
  obtain ⟨before, front, split⟩ := exists_blank_append cs
  suffices ∃ text, Written (.value value) text ∧ skipSpace cs = text ++ rest by
    obtain ⟨text, written, same⟩ := this
    exact ⟨before, text, front, written, by rw [← same]; exact split⟩
  rw [readValue] at read
  clear split
  generalize skipSpace cs = cs at read ⊢
  split at read
  next tail =>
    obtain ⟨⟨text?, _⟩, literal, same⟩ := Option.map_eq_some_iff.1 read
    obtain ⟨rfl, rfl⟩ := Prod.mk.inj same
    obtain ⟨inside, rfl, text⟩ := exists_of_readText literal
    exact ⟨_, .string text, by simp⟩
  next tail =>
    split at read
    next last closed =>
      obtain ⟨rfl, rfl⟩ := Prod.mk.inj (Option.some.inj read)
      obtain ⟨blanks, blank, rfl⟩ := exists_of_skipSpace closed
      exact ⟨_, .emptyArray blank, by simp⟩
    next =>
      obtain ⟨⟨list, _⟩, items, same⟩ := Option.map_eq_some_iff.1 read
      obtain ⟨rfl, rfl⟩ := Prod.mk.inj same
      obtain ⟨text, written, rfl⟩ := h.items items
      exact ⟨_, .array written, by simp⟩
  next tail =>
    split at read
    next last closed =>
      obtain ⟨rfl, rfl⟩ := Prod.mk.inj (Option.some.inj read)
      obtain ⟨blanks, blank, rfl⟩ := exists_of_skipSpace closed
      exact ⟨_, .emptyObject blank, by simp⟩
    next =>
      obtain ⟨⟨list, _⟩, members, same⟩ := Option.map_eq_some_iff.1 read
      obtain ⟨rfl, rfl⟩ := Prod.mk.inj same
      obtain ⟨text, written, rfl⟩ := h.members members
      exact ⟨_, .object written, by simp⟩
  next =>
    obtain ⟨rfl, rfl⟩ := Prod.mk.inj (Option.some.inj read)
    exact ⟨_, .null, rfl⟩
  next =>
    obtain ⟨rfl, rfl⟩ := Prod.mk.inj (Option.some.inj read)
    exact ⟨_, .true, rfl⟩
  next =>
    obtain ⟨rfl, rfl⟩ := Prod.mk.inj (Option.some.inj read)
    exact ⟨_, .false, rfl⟩
  next =>
    obtain ⟨text, rfl, number⟩ := exists_of_readNumber read
    exact ⟨text, .number number, rfl⟩

theorem items_succ (h : ReadsWritten fuel) {list : List Json}
    (read : readItems (fuel + 1) cs = some (list, rest)) :
    ∃ text, Written (.items list) text ∧ cs = text ++ ']' :: rest := by
  rw [readItems] at read
  obtain ⟨⟨item, behind⟩, first, more⟩ := Option.bind_eq_some_iff.1 read
  dsimp only at more
  split at more
  next last closed =>
    obtain ⟨rfl, rfl⟩ := Prod.mk.inj (Option.some.inj more)
    obtain ⟨text, written, rfl⟩ := h.element first closed
    exact ⟨text, .lastItem written, rfl⟩
  next last comma =>
    obtain ⟨⟨others, _⟩, items, same⟩ := Option.bind_eq_some_iff.1 more
    obtain ⟨rfl, rfl⟩ := Prod.mk.inj (Option.some.inj same)
    obtain ⟨text, written, rfl⟩ := h.element first comma
    obtain ⟨_, writtenItems, rfl⟩ := h.items items
    exact ⟨_, .item written writtenItems, by simp⟩
  next => cases more

theorem members_succ (h : ReadsWritten fuel) {list : List (Option String × Json)}
    (read : readMembers (fuel + 1) cs = some (list, rest)) :
    ∃ text, Written (.members list) text ∧ cs = text ++ '}' :: rest := by
  rw [readMembers] at read
  split at read
  next tail quoted =>
    obtain ⟨⟨key, colon⟩, literal, named⟩ := Option.bind_eq_some_iff.1 read
    obtain ⟨before, front, rfl⟩ := exists_of_skipSpace quoted
    obtain ⟨inside, rfl, name⟩ := exists_of_readText literal
    dsimp only at named
    split at named
    next tail parted =>
      obtain ⟨after, back, rfl⟩ := exists_of_skipSpace parted
      obtain ⟨⟨value, behind⟩, first, more⟩ := Option.bind_eq_some_iff.1 named
      dsimp only at more
      split at more
      next last closed =>
        obtain ⟨rfl, rfl⟩ := Prod.mk.inj (Option.some.inj more)
        obtain ⟨text, written, rfl⟩ := h.element first closed
        exact ⟨_, .lastMember front name back written, by simp⟩
      next last comma =>
        obtain ⟨⟨others, _⟩, members, same⟩ := Option.bind_eq_some_iff.1 more
        obtain ⟨rfl, rfl⟩ := Prod.mk.inj (Option.some.inj same)
        obtain ⟨text, written, rfl⟩ := h.element first comma
        obtain ⟨_, writtenMembers, rfl⟩ := h.members members
        exact ⟨_, .member front name back written writtenMembers, by simp⟩
      next => cases more
    next => cases named
  next => cases read

end ReadsWritten

theorem readsWritten (fuel : Nat) : ReadsWritten fuel := by
  induction fuel with
  | zero => exact readsWritten_zero
  | succ fuel ih => exact ⟨ih.value_succ, ih.items_succ, ih.members_succ⟩

/-- A document is read as the value that it writes, and only as that. -/
theorem read?_eq_some_iff {document : String} :
    read? document = some value ↔ IsDocument value document := by
  constructor
  · intro read
    unfold read? ofChars? at read
    split at read
    next found rest first =>
      split at read
      next closed =>
        obtain rfl := Option.some.inj read
        rw [List.isEmpty_iff] at closed
        obtain ⟨text, written, split⟩ := (readsWritten _).element first closed
        rw [List.append_nil] at split
        rw [IsDocument, split]
        exact written
      next => cases read
    next => cases read
  · exact read?_of_isDocument

end Rocket.Json

import Rocket.Proofs.Json.Grammar
import Mathlib.Data.List.TakeWhile

/-!
# Reading what the grammar writes

A text that writes a value is read as this value, and the reader stops where the text ends.

## Implementation notes

Each part of the reader is shown to read what is written in front of anything, except that
a number is not told from one with more digits behind it. The fuel that a text takes is twice
its length: the lists in an array or object have one call of their own, and the bracket and
brace around them pay for it.
-/

namespace Rocket.Json

/-! ## Blanks -/

theorem skipSpace_append {blanks : List Char} (h : IsBlank blanks) (cs : List Char) :
    skipSpace (blanks ++ cs) = skipSpace cs :=
  List.dropWhile_append_of_pos h

theorem skipSpace_cons {c : Char} (h : isSpace c = false) (cs : List Char) :
    skipSpace (c :: cs) = c :: cs :=
  List.dropWhile_cons_of_neg (by rw [h]; exact Bool.false_ne_true)

theorem skipSpace_append_cons {blanks : List Char} (h : IsBlank blanks) {c : Char}
    (solid : isSpace c = false) (cs : List Char) : skipSpace (blanks ++ c :: cs) = c :: cs := by
  rw [skipSpace_append h, skipSpace_cons solid]

/-! ## Strings -/

section Strings

variable {inside : List Char} {codes : List Nat} {cs : List Char}

/-- The inside of a string literal is read up to its closing quote. -/
theorem units_eq (h : Units inside codes) (rest : List Char) :
    units (inside ++ '"' :: rest) = some (codes, rest) := by
  induction h with
  | nil => rfl
  | char printable quote backslash _ ih =>
      have other : ∀ {P : Prop}, _ = '\\' → P := fun escaped => absurd escaped backslash
      rw [List.cons_append, units, if_neg (Nat.not_lt.2 printable), ih]
      · rfl
      · exact quote
      · exact other
      · exact fun _ _ _ _ _ => other
      · exact fun _ _ => other
  | letter escape _ ih =>
      rw [List.cons_append, List.cons_append, units, escape, ih]
      · rfl
      · rintro _ _ _ _ _ rfl
        cases escape
  | unit escape _ ih =>
      simp only [List.cons_append, units, escape, ih]
      rfl

/-- Units are assembled to the characters that they stand for. -/
theorem assemble_eq_some_iff : assemble codes = some cs ↔ Assembles codes cs := by
  constructor
  · intro h
    fun_induction assemble codes generalizing cs with
    | case1 =>
        obtain rfl := Option.some.inj h
        exact .nil
    | case2 => cases h
    | case3 unit plain =>
        obtain rfl := Option.some.inj h
        rw [not_or, Bool.not_eq_true, Bool.not_eq_true] at plain
        exact .char plain.1 plain.2 .nil
    | case4 unit next rest high low ih =>
        obtain ⟨tail, found, rfl⟩ := Option.map_eq_some_iff.1 h
        exact .pair high low (ih found)
    | case5 => cases h
    | case6 => cases h
    | case7 unit next rest high low ih =>
        obtain ⟨tail, found, rfl⟩ := Option.map_eq_some_iff.1 h
        exact .char (Bool.eq_false_iff.2 high) (Bool.eq_false_iff.2 low) (ih found)
  · intro h
    induction h with
    | nil => rfl
    | @char code codes cs high low _ ih =>
        cases codes with
        | nil =>
            obtain rfl := Option.some.inj ih
            simp [assemble, high, low]
        | cons next rest => simp [assemble, high, low, ih]
    | pair high low _ ih => simp [assemble, high, low, ih]

theorem map_assemble_eq_some_iff {text : String} :
    (assemble codes).map String.ofList = some text ↔ Assembles codes text.toList := by
  rw [← assemble_eq_some_iff, Option.map_eq_some_iff]
  constructor
  · rintro ⟨cs, found, rfl⟩
    rw [found, String.toList_ofList]
  · exact fun found => ⟨_, found, String.ofList_toList⟩

/-- A string literal is read as its text. -/
theorem readText_eq {text? : Option String} (h : WritesText inside text?) (rest : List Char) :
    readText (inside ++ '"' :: rest) = some (text?, rest) := by
  obtain ⟨codes, units, same⟩ := h
  have assembled : (assemble codes).map String.ofList = text? :=
    Option.ext fun text => map_assemble_eq_some_iff.trans (same text).symm
  rw [readText, units_eq units, Option.map_some]
  dsimp only
  rw [assembled]

end Strings

/-! ## Numbers -/

section Numbers

/-- Whether no digit comes next. -/
def StopsDigits (rest : List Char) : Prop :=
  ∀ c, rest.head? = some c → c.isDigit = false

/-- Whether what comes next does not belong to a number. -/
def Stops (rest : List Char) : Prop :=
  ∀ c, rest.head? = some c → c.isDigit = false ∧ c ≠ '.' ∧ c ≠ 'e' ∧ c ≠ 'E'

variable {sign digits fraction exponent rest : List Char}

theorem Stops.stopsDigits (h : Stops rest) : StopsDigits rest :=
  fun c next => (h c next).1

/-- A fraction and an exponent are no digits. -/
theorem stopsDigits_append (point : IsFraction fraction) (power : IsExponent exponent)
    (stops : Stops rest) : StopsDigits (fraction ++ (exponent ++ rest)) := by
  cases point with
  | some => rintro _ ⟨⟩; rfl
  | none =>
      cases power with
      | none => exact stops.stopsDigits
      | some marked =>
          rintro _ ⟨⟩
          obtain rfl | rfl := marked
          · rfl
          · rfl

theorem head?_exponent_ne (power : IsExponent exponent) (stops : Stops rest) :
    (exponent ++ rest).head? ≠ some '.' := by
  intro point
  cases power with
  | none => exact (stops _ point).2.1 rfl
  | some marked =>
      obtain rfl := Option.some.inj point
      obtain mark | mark := marked
      · cases mark
      · cases mark

/-- Digits start with a digit. -/
theorem IsDigits.exists_cons (h : IsDigits digits) :
    ∃ c tail, digits = c :: tail ∧ c.isDigit = true := by
  obtain ⟨c, tail, rfl⟩ := List.exists_cons_of_ne_nil h.1
  exact ⟨c, tail, rfl, h.2 c List.mem_cons_self⟩

theorem splitSign_eq (signed : sign = [] ∨ sign = ['-']) (whole : IsDigits digits) :
    splitSign (sign ++ (digits ++ rest)) = (decide (sign = ['-']), digits ++ rest) := by
  obtain rfl | rfl := signed
  · obtain ⟨c, tail, rfl, digit⟩ := whole.exists_cons
    rw [List.nil_append, List.cons_append]
    unfold splitSign
    split
    next minus =>
      obtain ⟨rfl, -⟩ := List.cons.inj minus
      cases digit
    next => rfl
  · rfl

theorem splitDigits_eq (whole : IsDigits digits) (stops : StopsDigits rest) :
    splitDigits (digits ++ rest) = some (digits, rest) := by
  have here : rest.takeWhile Char.isDigit = [] ∧ rest.dropWhile Char.isDigit = rest := by
    cases rest with
    | nil => exact ⟨rfl, rfl⟩
    | cons c rest => simp [stops c rfl]
  rw [splitDigits, List.takeWhile_append_of_pos whole.2, List.dropWhile_append_of_pos whole.2,
    here.1, here.2, List.append_nil, if_neg (by simpa using whole.1)]

theorem skipFraction_eq (h : IsFraction fraction) (stops : StopsDigits rest)
    (point : rest.head? ≠ some '.') : skipFraction (fraction ++ rest) = some rest := by
  cases h with
  | none =>
      rw [List.nil_append]
      unfold skipFraction
      split
      next => cases point rfl
      next => rfl
  | some whole =>
      rw [List.cons_append, skipFraction, splitDigits_eq whole stops]
      rfl

theorem dropExponentSign_eq (signed : sign = [] ∨ sign = ['+'] ∨ sign = ['-'])
    (whole : IsDigits digits) : dropExponentSign (sign ++ (digits ++ rest)) = digits ++ rest := by
  obtain rfl | rfl | rfl := signed
  · obtain ⟨c, tail, rfl, digit⟩ := whole.exists_cons
    rw [List.nil_append, List.cons_append]
    unfold dropExponentSign
    split
    next plus =>
      obtain ⟨rfl, -⟩ := List.cons.inj plus
      cases digit
    next minus =>
      obtain ⟨rfl, -⟩ := List.cons.inj minus
      cases digit
    next => rfl
  · rfl
  · rfl

theorem skipExponent_eq (h : IsExponent exponent) (stops : Stops rest) :
    skipExponent (exponent ++ rest) = some rest := by
  cases h with
  | none =>
      rw [List.nil_append]
      unfold skipExponent
      split
      next => cases (stops _ rfl).2.2.1 rfl
      next => cases (stops _ rfl).2.2.2 rfl
      next => rfl
  | some marked signed whole =>
      rw [List.cons_append, List.append_assoc]
      obtain rfl | rfl := marked
      · rw [skipExponent, dropExponentSign_eq signed whole, splitDigits_eq whole stops.stopsDigits]
        rfl
      · rw [skipExponent, dropExponentSign_eq signed whole, splitDigits_eq whole stops.stopsDigits]
        rfl

/-- A number is read by its parts. -/
theorem readNumber_of_parts {cs unsigned behind power : List Char}
    (minus : splitSign cs = (decide (sign = ['-']), unsigned))
    (whole : splitDigits unsigned = some (digits, behind))
    (plain : ¬(digits.head? = some '0' ∧ 1 < digits.length))
    (pointed : skipFraction behind = some power) (powered : skipExponent power = some rest)
    (text : cs = sign ++ (digits ++ (fraction ++ exponent)) ++ rest)
    (tail : behind = fraction ++ exponent ++ rest) :
    readNumber cs = some (ofNumber sign digits fraction exponent, rest) := by
  have integral : rest.length = behind.length ↔ fraction ++ exponent = [] := by
    rw [tail, List.length_append, ← List.length_eq_zero_iff]
    omega
  have taken : cs.take (cs.length - rest.length) = sign ++ (digits ++ (fraction ++ exponent)) := by
    rw [text, List.length_append, Nat.add_sub_cancel, List.take_left]
  rw [readNumber, minus]
  simp only [whole, plain, pointed, powered, taken, integral, Option.bind_eq_bind,
    Option.bind_some, if_false, decide_eq_true_eq]
  split
  next integer =>
    have value : ofNumber sign digits fraction exponent = _ := if_pos integer
    rw [value]
    rfl
  next other =>
    have value : ofNumber sign digits fraction exponent = _ := if_neg other
    rw [value]
    rfl

/-- No zero stands in front of other digits if there are none behind a first zero. -/
theorem plain_iff (whole : IsDigits digits) :
    (digits.head? = some '0' → digits = ['0']) ↔
      ¬(digits.head? = some '0' ∧ 1 < digits.length) := by
  obtain ⟨c, tail, rfl, -⟩ := whole.exists_cons
  cases tail with
  | nil => simp
  | cons next tail => simp

/-- A number is read up to what does not belong to it. -/
theorem readNumber_eq (signed : sign = [] ∨ sign = ['-']) (whole : IsDigits digits)
    (plain : digits.head? = some '0' → digits = ['0']) (point : IsFraction fraction)
    (power : IsExponent exponent) (stops : Stops rest) :
    readNumber (sign ++ (digits ++ (fraction ++ exponent)) ++ rest) =
      some (ofNumber sign digits fraction exponent, rest) := by
  have behind : StopsDigits (exponent ++ rest) := stopsDigits_append .none power stops
  refine readNumber_of_parts ?_ (splitDigits_eq whole (stopsDigits_append point power stops))
    ((plain_iff whole).1 plain) (skipFraction_eq point behind (head?_exponent_ne power stops))
    (skipExponent_eq power stops) rfl (List.append_assoc ..).symm
  simp only [List.append_assoc]
  exact splitSign_eq signed whole

variable {value : Json} {text : List Char}

/-- A number starts with its sign or with a digit. -/
theorem WritesNumber.exists_cons (h : WritesNumber text value) :
    ∃ c tail, text = c :: tail ∧ (c = '-' ∨ c.isDigit = true) := by
  obtain ⟨signed, whole, -, -, -⟩ := h
  obtain rfl | rfl := signed
  · obtain ⟨c, tail, rfl, digit⟩ := whole.exists_cons
    exact ⟨c, _, rfl, .inr digit⟩
  · exact ⟨'-', _, rfl, .inl rfl⟩

theorem isSpace_of_number {c : Char} (h : c = '-' ∨ c.isDigit = true) : isSpace c = false := by
  rw [isSpace, decide_eq_false_iff_not]
  rintro (rfl | rfl | rfl | rfl) <;> simp at h

theorem readNumber_of_writesNumber (h : WritesNumber text value) (stops : Stops rest) :
    readNumber (text ++ rest) = some (value, rest) := by
  obtain ⟨signed, whole, plain, point, power⟩ := h
  exact readNumber_eq signed whole plain point power stops

/-- A number is read as a value, of the kind of its first character. -/
theorem readValue_of_writesNumber (h : WritesNumber text value) (stops : Stops rest) (fuel : Nat) :
    readValue (fuel + 1) (text ++ rest) = some (value, rest) := by
  have read := readNumber_of_writesNumber h stops
  obtain ⟨c, tail, rfl, start⟩ := h.exists_cons
  rw [List.cons_append] at read ⊢
  rw [readValue, skipSpace_cons (isSpace_of_number start)]
  split
  iterate 6
    next same =>
      obtain ⟨rfl, -⟩ := List.cons.inj same
      simp at start
  next => exact read

/-- Whether a value is a number. -/
def isNumber : Json → Bool
  | .integer _ | .decimal _ => true
  | _ => false

theorem WritesNumber.isNumber (h : WritesNumber text value) : value.isNumber = true := by
  obtain ⟨-, -, -, -, -⟩ := h
  dsimp only [ofNumber]
  split
  next => rfl
  next => rfl

/-- Blanks may come first. -/
theorem Stops.blank_append {blanks : List Char} (stops : Stops rest) (h : IsBlank blanks) :
    Stops (blanks ++ rest) := by
  cases blanks with
  | nil => exact stops
  | cons c blanks =>
      rintro _ ⟨⟩
      have blank := h c List.mem_cons_self
      rw [isSpace, decide_eq_true_iff] at blank
      obtain rfl | rfl | rfl | rfl := blank <;> decide

theorem stops_cons {c : Char} (h : c = ',' ∨ c = ']' ∨ c = '}') (rest : List Char) :
    Stops (c :: rest) := by
  rintro _ ⟨⟩
  obtain rfl | rfl | rfl := h <;> decide

end Numbers

/-! ## Values -/

section Values

variable {value : Json} {text before after rest : List Char} {fuel : Nat}

theorem readValue_blank_append (h : IsBlank before) (fuel : Nat) (cs : List Char) :
    readValue fuel (before ++ cs) = readValue fuel cs := by
  cases fuel with
  | zero => rw [readValue, readValue]
  | succ fuel => rw [readValue, readValue, skipSpace_append h]

/-- How a text is read that writes something. What follows it is left, but a number needs
something behind it that is no part of it. -/
def Form.IsRead : Form → List Char → Prop
  | .value value, text => ∀ fuel rest, 2 * text.length ≤ fuel →
      (value.isNumber = true → Stops rest) → readValue fuel (text ++ rest) = some (value, rest)
  | .element value, text => ∃ after, IsBlank after ∧ ∀ fuel rest, 2 * text.length ≤ fuel →
      (value.isNumber = true → Stops rest) →
        readValue fuel (text ++ rest) = some (value, after ++ rest)
  | .items list, text => ∀ fuel rest, 2 * text.length < fuel →
      readItems fuel (text ++ ']' :: rest) = some (list, rest)
  | .members list, text => ∀ fuel rest, 2 * text.length < fuel →
      readMembers fuel (text ++ '}' :: rest) = some (list, rest)

theorem isRead_of_writesNumber (h : WritesNumber text value) :
    (Form.value value).IsRead text := by
  intro fuel rest enough stops
  have nonempty : 0 < text.length := by
    obtain ⟨c, tail, rfl, -⟩ := h.exists_cons
    exact Nat.succ_pos _
  obtain ⟨fuel, rfl⟩ := Nat.exists_eq_add_one_of_ne_zero (by omega : fuel ≠ 0)
  exact readValue_of_writesNumber h (stops h.isNumber) fuel

/-- A value that is told by its first character. -/
theorem isRead_of_cons {c : Char} (read : ∀ fuel rest, 2 * text.length < fuel →
    readValue (fuel + 1) (c :: (text ++ rest)) = some (value, rest)) :
    (Form.value value).IsRead (c :: text) := by
  intro fuel rest enough _
  rw [List.length_cons] at enough
  obtain ⟨fuel, rfl⟩ := Nat.exists_eq_add_one_of_ne_zero (by omega : fuel ≠ 0)
  exact read fuel rest (by omega)

/-- A value starts with something that is neither a blank nor a closing bracket. -/
theorem exists_cons_of_written (h : Written (.value value) text) :
    ∃ c tail, text = c :: tail ∧ isSpace c = false ∧ c ≠ ']' := by
  cases h with
  | number number =>
      obtain ⟨c, tail, rfl, start⟩ := number.exists_cons
      refine ⟨c, tail, rfl, isSpace_of_number start, ?_⟩
      rintro rfl
      simp at start
  | _ => exact ⟨_, _, rfl, rfl, by decide⟩

theorem exists_skipSpace_element (h : Written (.element value) text) (rest : List Char) :
    ∃ c tail, skipSpace (text ++ rest) = c :: tail ∧ c ≠ ']' := by
  cases h with
  | @element _ before text after front value back =>
      obtain ⟨c, tail, rfl, solid, inner⟩ := exists_cons_of_written value
      refine ⟨c, tail ++ after ++ rest, ?_, inner⟩
      rw [List.append_assoc, List.cons_append, List.cons_append, skipSpace_append_cons front solid]

theorem exists_skipSpace_items {list : List Json} (h : Written (.items list) text)
    (rest : List Char) : ∃ c tail, skipSpace (text ++ rest) = c :: tail ∧ c ≠ ']' := by
  cases h with
  | lastItem item => exact exists_skipSpace_element item rest
  | item item more =>
      rw [List.append_assoc]
      exact exists_skipSpace_element item _

theorem exists_skipSpace_members {list : List (Option String × Json)}
    (h : Written (.members list) text) (rest : List Char) :
    ∃ tail, skipSpace (text ++ rest) = '"' :: tail := by
  cases h with
  | lastMember front =>
      rw [List.append_assoc, List.cons_append, skipSpace_append_cons front rfl]
      exact ⟨_, rfl⟩
  | member front =>
      rw [List.append_assoc, List.cons_append, skipSpace_append_cons front rfl]
      exact ⟨_, rfl⟩

theorem readValue_array {cs tail : List Char} {c : Char} (start : skipSpace cs = c :: tail)
    (more : c ≠ ']') :
    readValue (fuel + 1) ('[' :: cs) =
      (readItems fuel cs).map fun (items, rest) => (.array items, rest) := by
  rw [readValue, skipSpace_cons rfl]
  simp only [start]
  split
  next same => exact absurd (List.cons.inj same).1 more
  next => rfl

theorem readValue_object {cs tail : List Char} {c : Char} (start : skipSpace cs = c :: tail)
    (more : c ≠ '}') :
    readValue (fuel + 1) ('{' :: cs) =
      (readMembers fuel cs).map fun (members, rest) => (.object members, rest) := by
  rw [readValue, skipSpace_cons rfl]
  simp only [start]
  split
  next same => exact absurd (List.cons.inj same).1 more
  next => rfl

section Members

variable {inside cs behind : List Char} {key : Option String}
variable (front : IsBlank before) (name : WritesText inside key) (back : IsBlank after)
variable (read : readValue fuel cs = some (value, behind))
include front name back read

theorem readMembers_last (closed : skipSpace behind = '}' :: rest) :
    readMembers (fuel + 1) (before ++ '"' :: (inside ++ '"' :: (after ++ ':' :: cs))) =
      some ([(key, value)], rest) := by
  rw [readMembers, skipSpace_append_cons front rfl]
  simp only [readText_eq name, Option.bind_eq_bind, Option.bind_some, Option.pure_def,
    skipSpace_append_cons back (by rfl : isSpace ':' = _), read, closed]

theorem readMembers_more {list : List (Option String × Json)} {others : List Char}
    (comma : skipSpace behind = ',' :: others) (more : readMembers fuel others = some (list, rest)) :
    readMembers (fuel + 1) (before ++ '"' :: (inside ++ '"' :: (after ++ ':' :: cs))) =
      some ((key, value) :: list, rest) := by
  rw [readMembers, skipSpace_append_cons front rfl]
  simp only [readText_eq name, Option.bind_eq_bind, Option.bind_some, Option.pure_def,
    skipSpace_append_cons back (by rfl : isSpace ':' = _), read, comma, more]

end Members

/-- What is written is read. -/
theorem isRead_of_written {form : Form} (h : Written form text) : form.IsRead text := by
  induction h with
  | null => exact isRead_of_cons fun fuel rest _ => by rw [readValue, skipSpace_cons rfl]; rfl
  | true => exact isRead_of_cons fun fuel rest _ => by rw [readValue, skipSpace_cons rfl]; rfl
  | false => exact isRead_of_cons fun fuel rest _ => by rw [readValue, skipSpace_cons rfl]; rfl
  | number number => exact isRead_of_writesNumber number
  | string text =>
      refine isRead_of_cons fun fuel rest _ => ?_
      rw [readValue, skipSpace_cons rfl, List.append_assoc, List.singleton_append]
      simp only [readText_eq text, Option.map_some]
  | emptyArray blank =>
      refine isRead_of_cons fun fuel rest _ => ?_
      rw [readValue, skipSpace_cons rfl, List.append_assoc, List.singleton_append]
      simp only [skipSpace_append_cons blank (by rfl : isSpace ']' = _)]
  | @array list text items ih =>
      refine isRead_of_cons fun fuel rest enough => ?_
      obtain ⟨c, tail, skipped, inner⟩ := exists_skipSpace_items items (']' :: rest)
      rw [List.length_append] at enough
      rw [List.append_assoc, List.singleton_append, readValue_array skipped inner,
        ih fuel rest (by omega), Option.map_some]
  | emptyObject blank =>
      refine isRead_of_cons fun fuel rest _ => ?_
      rw [readValue, skipSpace_cons rfl, List.append_assoc, List.singleton_append]
      simp only [skipSpace_append_cons blank (by rfl : isSpace '}' = _)]
  | object members ih =>
      refine isRead_of_cons fun fuel rest enough => ?_
      obtain ⟨tail, skipped⟩ := exists_skipSpace_members members ('}' :: rest)
      rw [List.length_append] at enough
      rw [List.append_assoc, List.singleton_append, readValue_object skipped (by decide),
        ih fuel rest (by omega), Option.map_some]
  | element front _ back ih =>
      refine ⟨_, back, fun fuel rest enough stops => ?_⟩
      rw [List.length_append, List.length_append] at enough
      rw [List.append_assoc, List.append_assoc, readValue_blank_append front]
      exact ih _ _ (by omega) fun number => (stops number).blank_append back
  | lastItem _ ih =>
      intro fuel rest enough
      obtain ⟨fuel, rfl⟩ := Nat.exists_eq_add_one_of_ne_zero (by omega : fuel ≠ 0)
      obtain ⟨after, blank, read⟩ := ih
      rw [readItems, read fuel _ (by omega) fun _ => stops_cons (by simp) rest]
      simp only [Option.bind_eq_bind, Option.bind_some, Option.pure_def,
        skipSpace_append_cons blank (by rfl : isSpace ']' = _)]
  | item _ _ first more =>
      intro fuel rest enough
      obtain ⟨fuel, rfl⟩ := Nat.exists_eq_add_one_of_ne_zero (by omega : fuel ≠ 0)
      obtain ⟨after, blank, read⟩ := first
      rw [List.length_append, List.length_cons] at enough
      rw [readItems, List.append_assoc, List.cons_append,
        read fuel _ (by omega) fun _ => stops_cons (by simp) _]
      simp only [Option.bind_eq_bind, Option.bind_some, Option.pure_def,
        skipSpace_append_cons blank (by rfl : isSpace ',' = _), more fuel rest (by omega)]
  | lastMember front name back _ ih =>
      intro fuel rest enough
      obtain ⟨fuel, rfl⟩ := Nat.exists_eq_add_one_of_ne_zero (by omega : fuel ≠ 0)
      obtain ⟨last, blank, read⟩ := ih
      simp only [List.length_append, List.length_cons] at enough
      simp only [List.append_assoc, List.cons_append]
      exact readMembers_last front name back
        (read fuel _ (by omega) fun _ => stops_cons (by simp) rest)
        (skipSpace_append_cons blank rfl rest)
  | member front name back _ _ first more =>
      intro fuel rest enough
      obtain ⟨fuel, rfl⟩ := Nat.exists_eq_add_one_of_ne_zero (by omega : fuel ≠ 0)
      obtain ⟨last, blank, read⟩ := first
      simp only [List.length_append, List.length_cons] at enough
      simp only [List.append_assoc, List.cons_append]
      exact readMembers_more front name back
        (read fuel _ (by omega) fun _ => stops_cons (by simp) _)
        (skipSpace_append_cons blank rfl _) (more fuel rest (by omega))

/-! ## Documents -/

theorem skipSpace_eq_nil_iff {cs : List Char} : skipSpace cs = [] ↔ IsBlank cs :=
  List.dropWhile_eq_nil_iff

/-- A document is read as the value that it writes. -/
theorem read?_of_isDocument {document : String} (h : IsDocument value document) :
    read? document = some value := by
  obtain ⟨after, blank, read⟩ := isRead_of_written h
  have whole := read (2 * document.toList.length + 2) [] (by omega) fun _ _ none => nomatch none
  rw [List.append_nil, List.append_nil] at whole
  rw [read?, ofChars?, whole]
  dsimp only
  rw [skipSpace_eq_nil_iff.2 blank]
  rfl

/-- Nothing but blanks is allowed behind a value, unless it is a number that goes on. -/
theorem read?_append {document : String} (h : IsDocument value document)
    (closed : value.isNumber = false) {more : String} (solid : ¬ IsBlank more.toList) :
    read? (document ++ more) = none := by
  obtain ⟨after, -, read⟩ := isRead_of_written h
  have first := read (2 * (document.toList ++ more.toList).length + 2) more.toList
    (by rw [List.length_append]; omega) fun number => by simp [closed] at number
  have rest : ¬ (skipSpace (after ++ more.toList)).isEmpty = true := by
    rw [List.isEmpty_iff, skipSpace_eq_nil_iff]
    exact fun blank => solid fun c inside => blank c (List.mem_append_right _ inside)
  rw [read?, String.toList_append, ofChars?, first]
  exact if_neg rest

end Values

end Rocket.Json

import Rocket.Text.Decimal

/-!
# Numerals

A nonempty run of decimal digits stands for one number. Reading a run below a
bound finds that number, and the digits printed for a number are a numeral for it.
-/

namespace Rocket.Text

/-- The digits are a numeral for `n`: a nonempty run of decimal digits whose value
is `n`. -/
structure IsNumeral (digits : List Char) (n : Nat) : Prop where
  nonempty : digits ≠ []
  all : ∀ c ∈ digits, c.isDigit = true
  value : Nat.ofDigitChars 10 digits 0 = n

/-- A run of digits opens with no plus sign. -/
theorem dropPlus_of_isDigit {digits : List Char} (all : ∀ c ∈ digits, c.isDigit = true) :
    dropPlus digits = digits := by
  unfold dropPlus
  split
  next rest =>
    have plus := all '+' List.mem_cons_self
    simp at plus
  next => rfl

/-- Reading a run of digits below a bound finds the number it stands for. -/
theorem natBelow?_eq_some_iff {bound n : Nat} {digits : List Char} (nonempty : digits ≠ [])
    (all : ∀ c ∈ digits, c.isDigit = true) :
    natBelow? bound digits = some n ↔ IsNumeral digits n ∧ n < bound := by
  have read : natOfDigits? digits = some (Nat.ofDigitChars 10 digits 0) := by
    rw [natOfDigits?, if_neg]
    simpa [nonempty] using all
  rw [natBelow?, dropPlus_of_isDigit all, read, Option.filter_eq_some_iff]
  constructor
  · rintro ⟨value, below⟩
    exact ⟨⟨nonempty, all, Option.some.inj value⟩, by simpa using below⟩
  · rintro ⟨numeral, below⟩
    exact ⟨congrArg some numeral.value, by simpa using below⟩

/-- The digits printed for a number are a numeral for it. -/
theorem isNumeral_toDigits (n : Nat) : IsNumeral (Nat.toDigits 10 n) n where
  nonempty := Nat.toDigits_ne_nil
  all c hc := Nat.isDigit_of_mem_toDigits (by decide) (by decide) hc
  value := Nat.ofDigitChars_ten_toDigits

end Rocket.Text

/-!
# Decimal numerals

Reading a run of decimal digits as a number below a bound.
-/

namespace Rocket.Text

/-- The number a nonempty run of decimal digits stands for. -/
def natOfDigits? (digits : List Char) : Option Nat :=
  if digits.isEmpty || digits.any (!·.isDigit) then none
  else some (Nat.ofDigitChars 10 digits 0)

/-- The numeral without the plus sign it may open with. -/
def dropPlus : List Char → List Char
  | '+' :: digits => digits
  | digits => digits

/-- The number below `bound` that a numeral stands for. A numeral is a nonempty
run of digits, leading zeros allowed, with at most one plus sign before it. -/
def natBelow? (bound : Nat) (numeral : List Char) : Option Nat :=
  (natOfDigits? (dropPlus numeral)).filter (· < bound)

end Rocket.Text

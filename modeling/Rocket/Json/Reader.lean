import Rocket.Json.Basic

/-!
# Reading JSON

A strict reader of RFC 8259: blanks are spaces, tabs and line ends only, nothing
but blanks surrounds the document, and no comma may trail. A string with unpaired
surrogate escapes is well formed, but has no text.

## Implementation notes

Values nest, so the reader recurs on a fuel that bounds the depth of the calls.
Each call either consumes a character or is the only one of its kind before the
next consumption; twice the length of the document is enough.
-/

namespace Rocket.Json

/-- Blanks between the tokens of a document. -/
def isSpace (c : Char) : Bool :=
  c = ' ' ∨ c = '\t' ∨ c = '\n' ∨ c = '\r'

def skipSpace (cs : List Char) : List Char :=
  cs.dropWhile isSpace

/-! ## Strings -/

def hexValue? (c : Char) : Option Nat :=
  if c.isDigit then some (c.toNat - '0'.toNat)
  else if 'a' ≤ c ∧ c ≤ 'f' then some (c.toNat - 'a'.toNat + 10)
  else if 'A' ≤ c ∧ c ≤ 'F' then some (c.toNat - 'A'.toNat + 10)
  else none

/-- The 16-bit unit with four hexadecimal digits. -/
def unit? (a b c d : Char) : Option Nat := do
  let a ← hexValue? a
  let b ← hexValue? b
  let c ← hexValue? c
  let d ← hexValue? d
  return ((a * 16 + b) * 16 + c) * 16 + d

/-- The code point of an escape of one letter. -/
def shortEscape? : Char → Option Nat
  | '"' => some 0x22
  | '\\' => some 0x5C
  | '/' => some 0x2F
  | 'b' => some 0x8
  | 'f' => some 0xC
  | 'n' => some 0xA
  | 'r' => some 0xD
  | 't' => some 0x9
  | _ => none

/-- The inside of a string up to its closing quote, and what follows it. Each
character stands for its code point, each escape for its unit. -/
def units : List Char → Option (List Nat × List Char)
  | [] => none
  | '"' :: rest => some ([], rest)
  | ['\\'] => none
  | '\\' :: 'u' :: a :: b :: c :: d :: rest => do
      let unit ← unit? a b c d
      let (more, rest) ← units rest
      return (unit :: more, rest)
  | '\\' :: letter :: rest => do
      let code ← shortEscape? letter
      let (more, rest) ← units rest
      return (code :: more, rest)
  | c :: rest =>
      if c.toNat < 0x20 then none
      else do
        let (more, rest) ← units rest
        return (c.toNat :: more, rest)

def isHighSurrogate (unit : Nat) : Bool :=
  0xD800 ≤ unit ∧ unit < 0xDC00

def isLowSurrogate (unit : Nat) : Bool :=
  0xDC00 ≤ unit ∧ unit < 0xE000

/-- The code point that two surrogates stand for. -/
def pair (high low : Nat) : Nat :=
  0x10000 + (high - 0xD800) * 0x400 + (low - 0xDC00)

/-- The characters of code points and units, if every surrogate has its partner. -/
def assemble : List Nat → Option (List Char)
  | [] => some []
  | [unit] =>
      if isHighSurrogate unit ∨ isLowSurrogate unit then none else some [Char.ofNat unit]
  | unit :: next :: rest =>
      if isHighSurrogate unit then
        if isLowSurrogate next then (assemble rest).map (Char.ofNat (pair unit next) :: ·)
        else none
      else if isLowSurrogate unit then none
      else (assemble (next :: rest)).map (Char.ofNat unit :: ·)

/-- A string behind its opening quote. -/
def readText (cs : List Char) : Option (Option String × List Char) :=
  (units cs).map fun (codes, rest) => ((assemble codes).map String.ofList, rest)

/-! ## Numbers -/

/-- The sign of a number, if it has one, and what follows. -/
def splitSign : List Char → Bool × List Char
  | '-' :: rest => (true, rest)
  | cs => (false, cs)

/-- The digits that the text starts with, of which there must be one, and what
follows them. -/
def splitDigits (cs : List Char) : Option (List Char × List Char) :=
  let digits := cs.takeWhile Char.isDigit
  if digits.isEmpty then none else some (digits, cs.dropWhile Char.isDigit)

/-- What follows the fraction, if there is one. -/
def skipFraction : List Char → Option (List Char)
  | '.' :: rest => (splitDigits rest).map (·.2)
  | cs => some cs

/-- The exponent without its sign. -/
def dropExponentSign : List Char → List Char
  | '+' :: rest => rest
  | '-' :: rest => rest
  | cs => cs

/-- What follows the exponent, if there is one. -/
def skipExponent : List Char → Option (List Char)
  | 'e' :: rest => (splitDigits (dropExponentSign rest)).map (·.2)
  | 'E' :: rest => (splitDigits (dropExponentSign rest)).map (·.2)
  | cs => some cs

/-- A number without a leading zero before other digits. -/
def readNumber (cs : List Char) : Option (Json × List Char) := do
  let (negative, unsigned) := splitSign cs
  let (digits, behind) ← splitDigits unsigned
  if digits.head? = some '0' ∧ 1 < digits.length then none
  let rest ← skipExponent (← skipFraction behind)
  let magnitude := Nat.ofDigitChars 10 digits 0
  if rest.length = behind.length ∧ ¬(negative ∧ magnitude = 0) then
    return (.integer (if negative then -(magnitude : Int) else magnitude), rest)
  else
    return (.decimal (String.ofList (cs.take (cs.length - rest.length))), rest)

/-! ## Values -/

mutual

/-- A value, and what follows it. -/
def readValue : (fuel : Nat) → List Char → Option (Json × List Char)
  | 0, _ => none
  | fuel + 1, cs =>
      match skipSpace cs with
      | '"' :: rest => (readText rest).map fun (text?, rest) => (.string text?, rest)
      | '[' :: rest =>
          match skipSpace rest with
          | ']' :: rest => some (.array [], rest)
          | _ => (readItems fuel rest).map fun (items, rest) => (.array items, rest)
      | '{' :: rest =>
          match skipSpace rest with
          | '}' :: rest => some (.object [], rest)
          | _ => (readMembers fuel rest).map fun (members, rest) => (.object members, rest)
      | 'n' :: 'u' :: 'l' :: 'l' :: rest => some (.null, rest)
      | 't' :: 'r' :: 'u' :: 'e' :: rest => some (.bool true, rest)
      | 'f' :: 'a' :: 'l' :: 's' :: 'e' :: rest => some (.bool false, rest)
      | cs => readNumber cs

/-- The items of an array that has some, and what follows its closing bracket. -/
def readItems : (fuel : Nat) → List Char → Option (List Json × List Char)
  | 0, _ => none
  | fuel + 1, cs => do
      let (item, rest) ← readValue fuel cs
      match skipSpace rest with
      | ']' :: rest => return ([item], rest)
      | ',' :: rest => do
          let (items, rest) ← readItems fuel rest
          return (item :: items, rest)
      | _ => none

/-- The members of an object that has some, and what follows its closing brace. -/
def readMembers : (fuel : Nat) → List Char → Option (List (Option String × Json) × List Char)
  | 0, _ => none
  | fuel + 1, cs =>
      match skipSpace cs with
      | '"' :: rest => do
          let (key, rest) ← readText rest
          match skipSpace rest with
          | ':' :: rest => do
              let (value, rest) ← readValue fuel rest
              match skipSpace rest with
              | '}' :: rest => return ([(key, value)], rest)
              | ',' :: rest => do
                  let (members, rest) ← readMembers fuel rest
                  return ((key, value) :: members, rest)
              | _ => none
          | _ => none
      | _ => none

end

/-- The value that a whole document writes. -/
def ofChars? (cs : List Char) : Option Json :=
  match readValue (2 * cs.length + 2) cs with
  | some (value, rest) => if (skipSpace rest).isEmpty then some value else none
  | none => none

/-- The value that a whole document writes. -/
def read? (document : String) : Option Json :=
  ofChars? document.toList

end Rocket.Json

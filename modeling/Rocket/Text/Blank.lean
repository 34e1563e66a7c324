import Rocket.Text.Trim

/-!
# Blank characters

The Unicode property `White_Space`, which decides what may surround a command in
a quoted list entry and when a level document counts as empty.
-/

namespace Rocket.Text

/-- The code points with the property `White_Space`. -/
def blankCodes : List Nat :=
  [0x9, 0xA, 0xB, 0xC, 0xD, 0x20, 0x85, 0xA0, 0x1680, 0x2000, 0x2001, 0x2002,
    0x2003, 0x2004, 0x2005, 0x2006, 0x2007, 0x2008, 0x2009, 0x200A, 0x2028,
    0x2029, 0x202F, 0x205F, 0x3000]

/-- Whether a character has the property `White_Space`. -/
def isBlank (c : Char) : Bool :=
  blankCodes.contains c.toNat

/-- The text without the blanks around it. -/
def strip (text : List Char) : List Char :=
  trim isBlank text

example : blankCodes.length = 25 := rfl

end Rocket.Text

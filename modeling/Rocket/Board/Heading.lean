/-!
# Headings

The four ways the rocket can face, numbered clockwise from `up`, and quarter
turns between them.
-/

namespace Rocket

/-- A quarter turn. -/
inductive Turn where
  | right
  | left
  deriving DecidableEq

def Turn.text : Turn → String
  | .right => "right"
  | .left => "left"

/-- The way the rocket faces. Rows are counted downwards, so `down` raises `y`. -/
inductive Heading where
  | up
  | right
  | down
  | left
  deriving DecidableEq

namespace Heading

/-- All headings, clockwise. -/
def all : List Heading :=
  [.up, .right, .down, .left]

/-- The place of a heading in clockwise order. -/
def ordinal : Heading → Nat
  | .up => 0
  | .right => 1
  | .down => 2
  | .left => 3

/-- The heading at a place in clockwise order, counting on past the last one. -/
def ofOrdinal (n : Nat) : Heading :=
  match n % 4 with
  | 0 => .up
  | 1 => .right
  | 2 => .down
  | _ => .left

/-- Turn clockwise. -/
def turnRight (h : Heading) : Heading :=
  ofOrdinal (h.ordinal + 1)

/-- Turn counter-clockwise: three quarter turns clockwise. -/
def turnLeft (h : Heading) : Heading :=
  ofOrdinal (h.ordinal + 3)

def turned (h : Heading) : Turn → Heading
  | .right => h.turnRight
  | .left => h.turnLeft

/-- The displacement of one move, across and down. -/
def delta : Heading → Int32 × Int32
  | .up => (0, -1)
  | .right => (1, 0)
  | .down => (0, 1)
  | .left => (-1, 0)

/-- The mark of the rocket on the drawn board. -/
def arrow : Heading → Char
  | .up => '↑'
  | .right => '→'
  | .down => '↓'
  | .left => '←'

def text : Heading → String
  | .up => "up"
  | .right => "right"
  | .down => "down"
  | .left => "left"

@[simp]
theorem ofOrdinal_ordinal (h : Heading) : ofOrdinal h.ordinal = h := by
  cases h <;> rfl

theorem ordinal_ofOrdinal (n : Nat) : (ofOrdinal n).ordinal = n % 4 := by
  have cases : n % 4 = 0 ∨ n % 4 = 1 ∨ n % 4 = 2 ∨ n % 4 = 3 := by omega
  rcases cases with h | h | h | h <;> simp [ofOrdinal, ordinal, h]

@[simp]
theorem turnLeft_turnRight (h : Heading) : h.turnRight.turnLeft = h := by
  cases h <;> rfl

@[simp]
theorem turnRight_turnLeft (h : Heading) : h.turnLeft.turnRight = h := by
  cases h <;> rfl

end Heading

end Rocket

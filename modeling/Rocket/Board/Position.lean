import Rocket.Board.Heading

/-!
# Positions

Cells of the plane, with coordinates in the range of a signed 32-bit word. A
position need not lie on any grid.
-/

namespace Rocket

/-- A cell of the plane. The coordinate `y` grows downwards. -/
structure Position where
  x : Int32
  y : Int32
  deriving DecidableEq

namespace Position

/-- The next cell along a heading. Beyond the last coordinate comes the first. -/
def step (p : Position) (h : Heading) : Position :=
  ⟨p.x + h.delta.1, p.y + h.delta.2⟩

/-- Whether the position is the cell in column `x` of row `y`. -/
def isCell (p : Position) (x y : Nat) : Bool :=
  p.x.toInt = x ∧ p.y.toInt = y

def text (p : Position) : String :=
  "(" ++ toString p.x.toInt ++ ", " ++ toString p.y.toInt ++ ")"

end Position

/-- A square board; its cells have both coordinates below the side length. -/
structure Grid where
  size : Nat
  deriving DecidableEq

/-- Whether a position is a cell of the grid. -/
def Grid.contains (grid : Grid) (p : Position) : Bool :=
  0 ≤ p.x.toInt ∧ p.x.toInt < grid.size ∧ 0 ≤ p.y.toInt ∧ p.y.toInt < grid.size

theorem Grid.contains_iff {grid : Grid} {p : Position} :
    grid.contains p = true ↔
      (0 ≤ p.x.toInt ∧ p.x.toInt < grid.size) ∧ 0 ≤ p.y.toInt ∧ p.y.toInt < grid.size := by
  simp [Grid.contains, and_assoc]

theorem Grid.contains_mono {small large : Grid} (h : small.size ≤ large.size) {p : Position}
    (hp : small.contains p = true) : large.contains p = true := by
  rw [Grid.contains_iff] at hp ⊢
  omega

end Rocket

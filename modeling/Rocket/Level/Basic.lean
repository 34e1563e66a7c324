import Rocket.Board.World
import Rocket.Finding.Basic

/-!
# Levels

The description of a level, the checks it has to pass, and the world that it
describes.
-/

namespace Rocket

/-- A level as described, possibly not playable. -/
structure Level where
  gridSize : UInt32
  start : Position
  startHeading : Heading
  target : Position
  /-- Milliseconds to wait between two shown steps. -/
  stepDelay : UInt64
  maxSteps : UInt64
  mode : Mode
  deriving DecidableEq

/-- Why a level cannot be played. -/
inductive LevelError where
  | gridSize (size : Nat)
  | startOutside (start : Position)
  | targetOutside (target : Position)
  | zeroStepLimit
  /-- The text describes no level. -/
  | notALevel
  deriving DecidableEq

namespace Level

/-- The side length of the largest grid. -/
def maxGridSize : Nat := 64

/-- The level that describes the reference world. -/
def reference : Level where
  gridSize := 6
  start := ⟨0, 5⟩
  startHeading := .up
  target := ⟨5, 0⟩
  stepDelay := 800
  maxSteps := 10000
  mode := .permissive

def grid (level : Level) : Grid :=
  ⟨level.gridSize.toNat⟩

/-- The world that a level describes. Of several defects the first one counts: the
size of the grid, the start, the target, the budget. -/
def world (level : Level) : Except LevelError World :=
  if level.gridSize.toNat = 0 ∨ maxGridSize < level.gridSize.toNat then
    .error (.gridSize level.gridSize.toNat)
  else if !level.grid.contains level.start then .error (.startOutside level.start)
  else if !level.grid.contains level.target then .error (.targetOutside level.target)
  else if level.maxSteps = 0 then .error .zeroStepLimit
  else .ok ⟨level.grid, ⟨level.start, level.startHeading⟩, level.target, level.maxSteps.toNat⟩

example : reference.world = .ok .reference := rfl

end Level

def LevelError.text : LevelError → String
  | .gridSize size =>
      "grid size must be between 1 and " ++ toString Level.maxGridSize ++ ", got "
        ++ toString size
  | .startOutside start => "start position " ++ start.text ++ " is outside the grid"
  | .targetOutside target => "target position " ++ target.text ++ " is outside the grid"
  | .zeroStepLimit => "max_steps must be greater than zero"
  | .notALevel => "invalid configuration JSON"

end Rocket

import Rocket.Board.Position

/-!
# Worlds

The rocket, and the level it is steered through: a grid, a starting state, a
target cell and a budget of actions.
-/

namespace Rocket

/-- The rocket: where it is and which way it faces. -/
structure Agent where
  position : Position
  heading : Heading
  deriving DecidableEq

def Agent.text (agent : Agent) : String :=
  agent.position.text ++ " facing " ++ agent.heading.text

/-- Everything a run needs besides its program. -/
structure World where
  grid : Grid
  start : Agent
  target : Position
  /-- How many actions a run may perform. -/
  maxSteps : Nat
  deriving DecidableEq

namespace World

/-- Six cells by six, from the lower left corner, facing up, to the upper right
corner. -/
def reference : World where
  grid := ⟨6⟩
  start := ⟨⟨0, 5⟩, .up⟩
  target := ⟨5, 0⟩
  maxSteps := 10000

/-- Whether the rocket stands on the target. Its heading does not matter. -/
def isGoal (world : World) (agent : Agent) : Bool :=
  agent.position = world.target

theorem isGoal_iff {world : World} {agent : Agent} :
    world.isGoal agent = true ↔ agent.position = world.target := by
  simp [isGoal]

end World

end Rocket

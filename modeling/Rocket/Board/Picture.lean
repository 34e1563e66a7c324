import Rocket.Board.World

/-!
# The drawn board

A world and its rocket as text: a row of marks for each row of cells, the top
row first.
-/

namespace Rocket.World

/-- The mark of the cell in column `x` of row `y`. The rocket hides the target. -/
def mark (world : World) (agent : Agent) (x y : Nat) : Char :=
  if agent.position.isCell x y then agent.heading.arrow
  else if world.target.isCell x y then '*'
  else '.'

/-- A row of marks, with a space between neighbours. -/
def row (world : World) (agent : Agent) (y : Nat) : List Char :=
  ((List.range world.grid.size).map fun x => world.mark agent x y).intersperse ' '

/-- The side length from which on a grid is not drawn: its last cells are not
positions. -/
def undrawnSize : Nat := 0x80000000

/-- The rows, each ended by a newline. -/
def pictureChars (world : World) (agent : Agent) : List Char :=
  if world.grid.size < undrawnSize then
    (List.range world.grid.size).flatMap fun y => world.row agent y ++ ['\n']
  else []

/-- The board as text. -/
def picture (world : World) (agent : Agent) : String :=
  String.ofList (world.pictureChars agent)

example : reference.picture reference.start =
    ". . . . . *\n. . . . . .\n. . . . . .\n. . . . . .\n. . . . . .\n↑ . . . . .\n" := by
  decide +kernel

end Rocket.World

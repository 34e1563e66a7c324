import Rocket.Board.World
import Rocket.Json.Basic
import Rocket.Level.Document

/-!
# Documents of worlds and levels

The JSON form of positions, headings, worlds and levels.
-/

namespace Rocket

def Position.toJson (p : Position) : Json :=
  .ofMembers [("x", .integer p.x.toInt), ("y", .integer p.y.toInt)]

def Heading.toJson (h : Heading) : Json :=
  .ofText h.text

def Turn.toJson (turn : Turn) : Json :=
  .ofText turn.text

def Agent.toJson (agent : Agent) : Json :=
  .ofMembers [("position", agent.position.toJson), ("heading", agent.heading.toJson)]

def World.toJson (world : World) : Json :=
  .ofMembers
    [("grid", .ofMembers [("size", .ofNat world.grid.size)]),
      ("start", world.start.toJson),
      ("target", world.target.toJson),
      ("max_steps", .ofNat world.maxSteps)]

def Level.toJson (level : Level) : Json :=
  .ofMembers
    [("grid_size", .ofNat level.gridSize.toNat),
      ("start", level.start.toJson),
      ("start_heading", level.startHeading.toJson),
      ("target", level.target.toJson),
      ("step_delay_ms", .ofNat level.stepDelay.toNat),
      ("max_steps", .ofNat level.maxSteps.toNat),
      ("parse_mode", .ofText (modeName level.mode))]

end Rocket

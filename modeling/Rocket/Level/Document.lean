import Rocket.Json.Reader
import Rocket.Level.Basic

/-!
# Level documents

Levels as JSON. A level is an object whose known members may each occur once and
default to those of the reference level, or an array of the same values in a fixed
order with the tail left out. A position is an object with both coordinates or an
array of the two. Unknown members are passed over, whatever they hold.
-/

namespace Rocket

/-- An integer in a range, both ends included. -/
def Json.intIn? (low high : Int) : Json → Option Int
  | .integer value => if low ≤ value ∧ value ≤ high then some value else none
  | _ => none

/-- One of several named values: its name, or an object with its name as only key
and null as value. -/
def Json.choice? {α : Type} (named : String → Option α) : Json → Option α
  | .string (some name) => named name
  | .object [(some name, .null)] => named name
  | _ => none

namespace Level

def word32? (value : Json) : Option UInt32 :=
  (value.intIn? 0 (UInt32.size - 1)).map fun n => UInt32.ofNat n.toNat

def word64? (value : Json) : Option UInt64 :=
  (value.intIn? 0 (UInt64.size - 1)).map fun n => UInt64.ofNat n.toNat

def coordinate? (value : Json) : Option Int32 :=
  (value.intIn? Int32.minValue.toInt Int32.maxValue.toInt).map Int32.ofInt

def heading? (value : Json) : Option Heading :=
  value.choice? fun name => Heading.all.find? fun h => h.text = name

/-- The name of a mode in a document. -/
def modeName : Mode → String
  | .permissive => "permissive"
  | .strict => "strict"

def mode? (value : Json) : Option Mode :=
  value.choice? fun name => [.permissive, .strict].find? fun mode => modeName mode = name

/-- The values of an object's members of one name. -/
def valuesOf (members : List (Option String × Json)) (name : String) : List Json :=
  (members.filter fun (key, _) => key = some name).map (·.2)

/-- The value of a member that occurs at most once; `absent` if it does not occur. -/
def member? {α : Type} (members : List (Option String × Json)) (name : String)
    (decode : Json → Option α) (absent : Option α) : Option α :=
  match valuesOf members name with
  | [] => absent
  | [value] => decode value
  | _ => none

/-- The value at a place of an array; `absent` behind its end. -/
def item? {α : Type} (items : List Json) (place : Nat) (decode : Json → Option α)
    (absent : Option α) : Option α :=
  match items[place]? with
  | none => absent
  | some value => decode value

/-- Whether every key has a text. -/
def keysReadable (members : List (Option String × Json)) : Bool :=
  members.all (·.1.isSome)

def position? : Json → Option Position
  | .object members =>
      if keysReadable members then do
        let x ← member? members "x" coordinate? none
        let y ← member? members "y" coordinate? none
        return ⟨x, y⟩
      else none
  | .array [x, y] => do return ⟨← coordinate? x, ← coordinate? y⟩
  | _ => none

/-- The names of a level's members, in the order of the array form. -/
def memberNames : List String :=
  ["grid_size", "start", "start_heading", "target", "step_delay_ms", "max_steps", "parse_mode"]

/-- A level whose parts are looked up by name and place, with a default for those
that are absent. -/
def ofParts? (part : {α : Type} → String → Nat → (Json → Option α) → α → Option α) :
    Option Level := do
  let gridSize ← part "grid_size" 0 word32? reference.gridSize
  let start ← part "start" 1 position? reference.start
  let startHeading ← part "start_heading" 2 heading? reference.startHeading
  let target ← part "target" 3 position? reference.target
  let stepDelay ← part "step_delay_ms" 4 word64? reference.stepDelay
  let maxSteps ← part "max_steps" 5 word64? reference.maxSteps
  let mode ← part "parse_mode" 6 mode? reference.mode
  return { gridSize, start, startHeading, target, stepDelay, maxSteps, mode }

/-- The level that a value describes. -/
def ofJson? : Json → Option Level
  | .object members =>
      if keysReadable members then
        ofParts? fun name _ decode absent => member? members name decode (some absent)
      else none
  | .array items =>
      if items.length ≤ memberNames.length then
        ofParts? fun _ place decode absent => item? items place decode (some absent)
      else none
  | _ => none

/-- The level that a document describes. -/
def read (document : String) : Except LevelError Level :=
  match (Json.read? document).bind ofJson? with
  | some level => .ok level
  | none => .error .notALevel

end Level

end Rocket

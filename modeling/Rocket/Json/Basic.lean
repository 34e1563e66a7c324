/-!
# JSON values

Documents as values. Integers are kept exactly; other numbers keep their text.
The members of an object keep their order, and a key may occur twice.
-/

namespace Rocket

/-- A JSON value. -/
inductive Json where
  | null
  | bool (value : Bool)
  /-- A number written with digits only, other than a negative zero. -/
  | integer (value : Int)
  /-- Any other number, as written. -/
  | decimal (text : String)
  /-- A string; `none` if its escapes do not pair up to characters. -/
  | string (text? : Option String)
  | array (items : List Json)
  | object (members : List (Option String × Json))

namespace Json

/-- A string value with the given text. -/
def ofText (text : String) : Json :=
  .string (some text)

def ofNat (n : Nat) : Json :=
  .integer n

/-- An object with the given members. -/
def ofMembers (members : List (String × Json)) : Json :=
  .object (members.map fun (key, value) => (some key, value))

/-- The value, or null if there is none. -/
def ofOption {α : Type} (encode : α → Json) : Option α → Json
  | none => .null
  | some a => encode a

/-- An array with an item for each element. -/
def ofList {α : Type} (encode : α → Json) (as : List α) : Json :=
  .array (as.map encode)

end Json

end Rocket

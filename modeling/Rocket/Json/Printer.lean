import Rocket.Json.Basic

/-!
# Printing JSON

Documents on one line, and documents with a line for each item and member.
-/

namespace Rocket.Json

/-- The two low hexadecimal digits of a number. -/
def hexPair (n : Nat) : String :=
  String.ofList [Nat.digitChar (n / 16 % 16), Nat.digitChar (n % 16)]

/-- A character inside a string. Quotes, backslashes and control characters are
escaped, by a letter where there is one. -/
def escape (c : Char) : String :=
  match c.toNat with
  | 0x22 => "\\\""
  | 0x5C => "\\\\"
  | 0x8 => "\\b"
  | 0x9 => "\\t"
  | 0xA => "\\n"
  | 0xC => "\\f"
  | 0xD => "\\r"
  | n => if n < 0x20 then "\\u00" ++ hexPair n else String.singleton c

/-- A string literal. One without text is shown as an escape that has no partner. -/
def literal : Option String → String
  | none => "\"\\ud800\""
  | some text => "\"" ++ String.join (text.toList.map escape) ++ "\""

mutual

/-- The value on one line, without blanks. -/
def compact : Json → String
  | .null => "null"
  | .bool true => "true"
  | .bool false => "false"
  | .integer value => toString value
  | .decimal text => text
  | .string text? => literal text?
  | .array items => "[" ++ ",".intercalate (compactItems items) ++ "]"
  | .object members => "\x7b" ++ ",".intercalate (compactMembers members) ++ "\x7d"

def compactItems : List Json → List String
  | [] => []
  | item :: items => compact item :: compactItems items

def compactMembers : List (Option String × Json) → List String
  | [] => []
  | (key, value) :: members => (literal key ++ ":" ++ compact value) :: compactMembers members

end

/-- A line break and the blanks before the next line. -/
def lineBreak (depth : Nat) : String :=
  "\n" ++ String.ofList (List.replicate (2 * depth) ' ')

/-- Parts in brackets, each on a line of its own at the given depth. -/
def bracketed (opening closing : String) (depth : Nat) (parts : List String) : String :=
  if parts.isEmpty then opening ++ closing
  else
    opening ++ lineBreak (depth + 1) ++ ("," ++ lineBreak (depth + 1)).intercalate parts
      ++ lineBreak depth ++ closing

mutual

/-- The value at some depth of a document with a line for each part. -/
def prettyAt (depth : Nat) : Json → String
  | .null => "null"
  | .bool true => "true"
  | .bool false => "false"
  | .integer value => toString value
  | .decimal text => text
  | .string text? => literal text?
  | .array items => bracketed "[" "]" depth (prettyItems (depth + 1) items)
  | .object members => bracketed "\x7b" "\x7d" depth (prettyMembers (depth + 1) members)

def prettyItems (depth : Nat) : List Json → List String
  | [] => []
  | item :: items => prettyAt depth item :: prettyItems depth items

def prettyMembers (depth : Nat) : List (Option String × Json) → List String
  | [] => []
  | (key, value) :: members =>
      (literal key ++ ": " ++ prettyAt depth value) :: prettyMembers depth members

end

/-- The value as a document with a line for each part, indented by two blanks. -/
def pretty (value : Json) : String :=
  prettyAt 0 value

end Rocket.Json

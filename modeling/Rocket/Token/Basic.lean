import Rocket.Command.Basic

/-!
# Tokens

The words, literals and marks that a line of source is made of, and the two
tokens that end a line.
-/

namespace Rocket

/-- What a token is. -/
inductive Token.Kind where
  /-- The name of an action. -/
  | primitive (p : Primitive)
  /-- The word that opens a repetition. -/
  | loop
  /-- Any other word. -/
  | word (name : String)
  /-- A run of decimal digits, as written. -/
  | digits (text : String)
  /-- A string literal, without its quotes. -/
  | quoted (text : String)
  | openParen
  | closeParen
  | openBracket
  | closeBracket
  | comma
  | semicolon
  /-- A character that begins no token. -/
  | stray (c : Char)
  /-- The end of a line that another line follows. -/
  | newline
  | endOfInput
  deriving DecidableEq

/-- A token and its place. -/
structure Token where
  kind : Token.Kind
  span : Span
  deriving DecidableEq

namespace Token.Kind

/-- The word that opens a repetition. -/
def loopWord : String := "repeat"

/-- The reserved words. -/
def reserved : List String :=
  Primitive.all.map Primitive.name ++ [loopWord]

/-- The token that a reserved word stands for. -/
def ofReserved? (word : String) : Option Kind :=
  if word = loopWord then some .loop
  else (Primitive.all.find? fun p => p.name = word).map .primitive

/-- The token that a word stands for. -/
def ofWord (word : String) : Kind :=
  (ofReserved? word).getD (.word word)

def primitive? : Kind → Option Primitive
  | .primitive p => some p
  | _ => none

def isReserved : Kind → Bool
  | .primitive _ | .loop => true
  | _ => false

def isStray : Kind → Bool
  | .stray _ => true
  | _ => false

def isLineEnd : Kind → Bool
  | .newline | .endOfInput => true
  | _ => false

/-- How reports show a token. A string literal is shown in double quotes,
whichever it was written in. -/
def text : Kind → String
  | .primitive p => p.name
  | .loop => loopWord
  | .word name => name
  | .digits text => text
  | .quoted text => "\"" ++ text ++ "\""
  | .openParen => "("
  | .closeParen => ")"
  | .openBracket => "["
  | .closeBracket => "]"
  | .comma => ","
  | .semicolon => ";"
  | .stray c => String.singleton c
  | .newline => "newline"
  | .endOfInput => "end of input"

/-- Only a newline and the end of input end a line. -/
theorem isLineEnd_iff {kind : Kind} :
    kind.isLineEnd = true ↔ kind = .newline ∨ kind = .endOfInput := by
  cases kind <;> simp [isLineEnd]

/-- What ends a line is no stray character. -/
theorem isStray_of_isLineEnd {kind : Kind} (last : kind.isLineEnd = true) :
    kind.isStray = false := by
  obtain rfl | rfl := isLineEnd_iff.1 last <;> rfl

@[simp]
theorem ofReserved?_name (p : Primitive) : ofReserved? p.name = some (.primitive p) := by
  match p with
  | .move | .turn .right | .turn .left => decide

@[simp]
theorem ofReserved?_loopWord : ofReserved? loopWord = some .loop := rfl

end Token.Kind

end Rocket

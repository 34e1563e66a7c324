import Rocket.Token.Basic

/-!
# Problems

What can be wrong with a source text. A problem is a cause; its code, its
message and the advice that goes with it are functions of it.
-/

namespace Rocket

/-- What a report is about. -/
inductive Category where
  | lexical
  | syntactic
  deriving DecidableEq

def Category.text : Category → String
  | .lexical => "lexical"
  | .syntactic => "syntax"

/-- The number that identifies a kind of problem. -/
structure Code where
  number : Nat
  deriving DecidableEq

namespace Code

/-- Codes from 100 to 199 are about characters, all others about tokens. -/
def category (code : Code) : Category :=
  if 100 ≤ code.number ∧ code.number ≤ 199 then .lexical else .syntactic

def text (code : Code) : String :=
  "E" ++ toString code.number

def strayCharacter : Code := ⟨100⟩
def unterminatedString : Code := ⟨101⟩
def unknownCommand : Code := ⟨200⟩
def malformedLoop : Code := ⟨201⟩
def unknownEntry : Code := ⟨202⟩
def countOutOfRange : Code := ⟨203⟩
def nestedLoop : Code := ⟨204⟩
def trailingTokens : Code := ⟨205⟩
def missingSemicolon : Code := ⟨206⟩
def unexpectedToken : Code := ⟨207⟩

end Code

/-- What the grammar asks for at some place of a line. -/
inductive Expected where
  | command
  | openParen
  | closeParen
  | semicolon
  | loopOpen
  | loopCount
  | loopComma
  | listOpen
  | listClose
  | loopClose
  deriving DecidableEq

def Expected.text : Expected → String
  | .command => "a command"
  | .openParen => "'('"
  | .closeParen => "')'"
  | .semicolon => "';'"
  | .loopOpen => "'(' after repeat"
  | .loopCount => "a repeat count"
  | .loopComma => "',' after the repeat count"
  | .listOpen => "'[' to open the command list"
  | .listClose => "']' to close the command list"
  | .loopClose => "')' to close repeat"

/-- A cause for a report. -/
inductive Problem where
  | strayCharacter (c : Char)
  | unterminatedString
  /-- The line opens with a word that names no command. -/
  | unknownCommand (name : String)
  /-- A repetition lacks one of its parts. -/
  | malformedLoop (expected : Expected) (found : Token.Kind)
  /-- An entry of a command list is no action. -/
  | unknownEntry (text : String)
  | countOutOfRange (digits : String)
  /-- An entry of a command list is itself a repetition. -/
  | nestedLoop
  /-- A statement is followed by something else on its line. -/
  | trailingTokens (found : Token.Kind)
  | missingSemicolon
  | unexpectedToken (expected : Expected) (found : Token.Kind)
  deriving DecidableEq

namespace Problem

/-- The bound of repeat counts: they fit a word of 32 bits. -/
def countBound : Nat := UInt32.size

def code : Problem → Code
  | .strayCharacter _ => .strayCharacter
  | .unterminatedString => .unterminatedString
  | .unknownCommand _ => .unknownCommand
  | .malformedLoop _ _ => .malformedLoop
  | .unknownEntry _ => .unknownEntry
  | .countOutOfRange _ => .countOutOfRange
  | .nestedLoop => .nestedLoop
  | .trailingTokens _ => .trailingTokens
  | .missingSemicolon => .missingSemicolon
  | .unexpectedToken _ _ => .unexpectedToken

def message : Problem → String
  | .strayCharacter c => "unexpected character '" ++ String.singleton c ++ "'"
  | .unterminatedString => "unterminated string literal"
  | .unknownCommand name => "unknown command '" ++ name ++ "'"
  | .malformedLoop expected found =>
      "malformed repeat: expected " ++ expected.text ++ ", got '" ++ found.text ++ "'"
  | .unknownEntry text =>
      "'" ++ text ++ "' is not a command; entry left out of the repeat body"
  | .countOutOfRange digits =>
      "repeat count " ++ digits ++ " is too large (maximum " ++ toString (countBound - 1) ++ ")"
  | .nestedLoop => "repeat cannot be used inside another repeat; entry left out"
  | .trailingTokens found => "unexpected '" ++ found.text ++ "' after statement"
  | .missingSemicolon => "missing ';' at end of statement"
  | .unexpectedToken expected found =>
      "expected " ++ expected.text ++ ", got '" ++ found.text ++ "'"

/-- Advice on how to mend the source. -/
def suggestion? : Problem → Option String
  | .unknownCommand _ =>
      some "available commands: move(), turnRight(), turnLeft(), repeat(n, [...])"
  | .malformedLoop _ _ => some "repeat(3, [\"move()\", \"turnRight()\"]);"
  | .unknownEntry _ => some "use \"move()\", \"turnRight()\" or \"turnLeft()\""
  | .nestedLoop => some "list the repeated commands directly in the outer repeat"
  | .trailingTokens _ => some "put each command on its own line"
  | .missingSemicolon => some "end every command with ';'"
  | .strayCharacter _ | .unterminatedString | .countOutOfRange _ | .unexpectedToken _ _ => none

end Problem

/-- A problem and the place it is reported at. -/
structure Remark where
  problem : Problem
  span : Span
  deriving DecidableEq

end Rocket

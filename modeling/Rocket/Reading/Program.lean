import Rocket.Finding.Collection
import Rocket.Reading.Line
import Rocket.Token.Scan

/-!
# Reading a program

A program is read line by line: what is left of a line that is not understood is
passed over. The program consists of the statements of the other lines, unless a
finding is an error.
-/

namespace Rocket

namespace Parser

/-- One more newline, if there is one. -/
def newlineRound (_ : Unit) : Parser (Unit ⊕ Unit) := do
  if ← eat .newline then return .inl ()
  else return .inr ()

/-- Pass over newlines. -/
def newlines : Parser Unit :=
  iterate newlineRound ()

/-- One more token of a line, if there is one. -/
def lineRound (_ : Unit) : Parser (Unit ⊕ Unit) := do
  if (← token).kind.isLineEnd then return .inr ()
  else
    let _ ← advance
    return .inl ()

/-- Pass over what is left of a line, and over its newline. -/
def restOfLine : Parser Unit := do
  iterate lineRound ()
  let _ ← eat .newline

/-- One more line that has tokens, if there is one before the end of input. -/
def statementRound (source : Source) (read : Array Statement) :
    Parser (Array Statement ⊕ List Statement) := do
  newlines
  if (← token).kind = .endOfInput then return .inr read.toList
  else
    let statement? ← recover (statement source)
    restOfLine
    return .inl (read ++ statement?.toArray)

/-- The statements of a token list, up to its first end of input. -/
def statements (source : Source) : Parser (List Statement) :=
  iterate (statementRound source) #[]

end Parser

/-- What comes of reading a source. -/
structure Parsed where
  program? : Option Program
  findings : Findings

namespace Parsed

/-- A program, unless something found is an error. -/
def ofFindings (program : Program) (findings : Findings) : Parsed :=
  ⟨if findings.hasErrors then none else some program, findings⟩

/-- The reading of a token list. -/
def reading (source : Source) (tokens : List Token) : Reading (List Statement) :=
  ((Parser.statements source).run tokens.toArray 0).1

/-- Read a list of tokens. The source serves to quote from only. -/
def ofTokens (source : Source) (mode : Mode) (tokens : List Token) : Parsed :=
  let reading := reading source tokens
  ofFindings ⟨reading.value?.getD []⟩ (.ofRemarks source mode reading.remarks)

/-- Read a source. What the lines give rise to is recorded before what the
characters do. -/
def ofSource (source : Source) (mode : Mode) : Parsed :=
  let parsed := ofTokens source mode source.tokens
  let findings := parsed.findings.extend (.ofRemarks source mode source.scanRemarks)
  ⟨if findings.hasErrors then none else parsed.program?, findings⟩

end Parsed

/-- The name that reports give a source which is no file. -/
def Source.defaultName : String := "main.pilot"

/-- The program of a source read permissively. Lines that are not understood are
not in it. -/
def Program.ofText (text : String) : Program :=
  ((Parsed.ofSource (.ofText Source.defaultName text) .permissive).program?).getD .empty

end Rocket

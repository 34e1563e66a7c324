import Rocket.Reading.Entry
import Rocket.Reading.Parser
import Rocket.Text.Decimal

/-!
# Lines

Reading one line as a statement:

* `move` `(` `)` `;`, and the same for the other actions;
* `repeat` `(` count `,` `[` entries `]` `)` `;`.

A line that is neither is dropped, with a remark on the first token that does not
fit. A stray character has been remarked on when it was scanned and gets no
second remark.
-/

namespace Rocket

namespace Token

/-- The remark that a token is not what the grammar asks for. -/
def unexpected (expected : Expected) (token : Token) : List Remark :=
  if token.kind.isStray then [] else [⟨.unexpectedToken expected token.kind, token.span⟩]

/-- The remark that a token is not the next part of a repetition. -/
def malformed (expected : Expected) (token : Token) : List Remark :=
  if token.kind.isStray then [] else [⟨.malformedLoop expected token.kind, token.span⟩]

/-- The count that a numeral stands for. -/
def count? (digits : String) : Option UInt32 :=
  (Text.natBelow? Problem.countBound digits.toList).map UInt32.ofNat

end Token

namespace Parser

/-- Pass over a token of a given kind; at any other token, fail with what `remark`
says of it. -/
def expect (kind : Token.Kind) (remark : Token → List Remark) : Parser Unit := do
  if ← eat kind then return ()
  else fail (remark (← token))

/-- The semicolon of a statement. -/
def semicolon : Parser Unit := do
  if ← eat .semicolon then return ()
  else
    let next ← token
    if next.kind.isLineEnd then fail [⟨.missingSemicolon, ← previous⟩]
    else fail (next.unexpected .semicolon)

/-- A statement is the only thing on its line. -/
def lineEnd : Parser Unit := do
  let next ← token
  if next.kind.isLineEnd then return ()
  else fail [⟨.trailingTokens next.kind, next.span⟩]

/-- The call of an action. -/
def call : Parser Primitive := do
  match (← advance).kind.primitive? with
  | none => fail []
  | some p =>
      expect .openParen (Token.unexpected .openParen)
      expect .closeParen (Token.unexpected .closeParen)
      return p

/-- The count of a repetition. -/
def count : Parser UInt32 := do
  let next ← token
  match next.kind with
  | .digits text =>
      let _ ← advance
      match Token.count? text with
      | some count => return count
      | none => fail [⟨.countOutOfRange text, next.span⟩]
  | _ => fail (next.malformed .loopCount)

/-- One more token of an entry that has opened `depth` brackets of its own. A comma or
closing bracket outside of these ends the entry. -/
def entryRound : Nat × Array Token → Parser (Nat × Array Token ⊕ List Token)
  | (depth, tokens) => do
      let next ← token
      if depth = 0 ∧ (next.kind = .comma ∨ next.kind = .closeBracket) then
        return .inr tokens.toList
      else if next.kind.isLineEnd then fail (next.malformed .listClose)
      else
        let _ ← advance
        return .inl (Entry.depthAfter depth next.kind, tokens.push next)

/-- The tokens of an entry. -/
def entry : Parser (List Token) :=
  iterate entryRound (0, #[])

/-- One more entry of a command list, and the comma or closing bracket behind it. -/
def bodyRound (source : Source) (actions : Array Primitive) :
    Parser (Array Primitive ⊕ List Primitive) := do
  let tokens ← entry
  let actions := actions ++ (← ofReading (Entry.read source tokens))
  if ← eat .comma then return .inl actions
  else if ← eat .closeBracket then return .inr actions.toList
  else fail ((← token).malformed .listClose)

/-- The entries of a command list and its closing bracket. -/
def body (source : Source) : Parser (List Primitive) :=
  iterate (bodyRound source) #[]

/-- A repetition. -/
def loop (source : Source) : Parser Command := do
  let _ ← advance
  expect .openParen (Token.malformed .loopOpen)
  let count ← count
  expect .comma (Token.malformed .loopComma)
  expect .openBracket (Token.malformed .listOpen)
  let body ← body source
  expect .closeParen (Token.malformed .loopClose)
  return .loop count body

/-- The command that starts with the token `first`, which is next. -/
def command (source : Source) (first : Token) : Parser Command :=
  match first.kind with
  | .primitive _ => do return .primitive (← call)
  | .loop => loop source
  | .word name => fail [⟨.unknownCommand name, first.span⟩]
  | _ => fail (first.unexpected .command)

/-- The statement of a line. -/
def statement (source : Source) : Parser Statement := do
  let first ← token
  let command ← command source first
  semicolon
  lineEnd
  return ⟨command, first.span.merge (← previous)⟩

end Parser

end Rocket

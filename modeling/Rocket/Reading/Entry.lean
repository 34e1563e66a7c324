import Rocket.Reading.Basic
import Rocket.Text.Blank
import Rocket.Text.Quote
import Rocket.Text.Source

/-!
# Entries of a command list

Finding the actions that an entry of a command list stands for. An entry that is not
understood is left out of the list with a remark; the rest of the list stands.
-/

namespace Rocket

namespace Entry

/-- How deep in brackets of its own an entry is after one more token. -/
def depthAfter (depth : Nat) : Token.Kind → Nat
  | .openParen | .openBracket => depth + 1
  | .closeParen | .closeBracket => depth - 1
  | _ => depth

/-- A piece of a quoted entry without the blanks and quotes around it. -/
def bare (piece : List Char) : List Char :=
  Text.strip (Text.trim Text.isQuote (Text.strip piece))

/-- The calls that a quoted entry lists, between commas. Empty ones do not count. -/
def calls (text : String) : List (List Char) :=
  ((text.toList.splitOn ',').map bare).filter (!·.isEmpty)

/-- The actions of a quoted entry. Each call that names none is remarked on. -/
def ofQuoted (span : Span) (text : String) : Reading (List Primitive) :=
  let unknown := (calls text).filter fun call => (Primitive.ofText? call).isNone
  .tell (unknown.map fun call => ⟨.unknownEntry (String.ofList call), span⟩)
    ((calls text).filterMap Primitive.ofText?)

/-- What the tokens of an entry cover. -/
def span (first : Token) (others : List Token) : Span :=
  first.span.merge ((others.getLast?).getD first).span

/-- The remark on an entry that is no action. An entry with a stray character has
its remark already. -/
def remarks (source : Source) (first : Token) (others : List Token) : List Remark :=
  if (first :: others).any (·.kind.isStray) then []
  else if first.kind = .loop then [⟨.nestedLoop, span first others⟩]
  else [⟨.unknownEntry (String.ofList (source.cut (span first others))), span first others⟩]

/-- The actions that an entry stands for: those of a quoted text, or one call. -/
def read (source : Source) : List Token → Reading (List Primitive)
  | [] => pure []
  | [⟨.quoted text, place⟩] => ofQuoted place text
  | [⟨.primitive p, _⟩, ⟨.openParen, _⟩, ⟨.closeParen, _⟩] => pure [p]
  | first :: others => .tell (remarks source first others) []

end Entry

end Rocket

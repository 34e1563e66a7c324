import Rocket.Reading.Line

/-!
# A line at once

What a line is read as, as a function of its tokens: each part of a statement is a
function from the tokens that are left on the line to those behind the part. A parser
that starts on a line does the same, token by token.

## Implementation notes

The entries of a command list are cut apart before the first of them is read. An entry
that the end of the line cuts short is not among them.
-/

namespace Rocket

/-- What a command list consists of: its finished entries and, if it is closed,
the tokens behind it. An entry that the end of the line cuts short is not
finished. -/
structure Listing where
  entries : List (List Token)
  rest? : Option (List Token)

namespace Listing

/-- The command list whose inside starts here, or goes on here within an entry that
has opened `depth` brackets of its own. A comma ends an entry and a closing bracket
ends the list, except inside such brackets. -/
def ofTokens (depth : Nat) : List Token → Listing
  | [] => ⟨[], none⟩
  | token :: rest =>
      if depth = 0 ∧ token.kind = .comma then
        let others := ofTokens 0 rest
        ⟨[] :: others.entries, others.rest?⟩
      else if depth = 0 ∧ token.kind = .closeBracket then
        ⟨[[]], some rest⟩
      else
        let others := ofTokens (Entry.depthAfter depth token.kind) rest
        ⟨others.entries.modifyHead (token :: ·), others.rest?⟩

end Listing

namespace Entry

/-- The actions of consecutive entries, in order. -/
def readAll (source : Source) : List (List Token) → Reading (List Primitive)
  | [] => pure []
  | entry :: entries => do
      let actions ← read source entry
      let more ← readAll source entries
      return actions ++ more

end Entry

/-- The tokens of a line and the one that ends it. -/
structure Line where
  tokens : List Token
  stop : Token

namespace Line

open Token (unexpected malformed count?)

/-- The line with one more token in front. -/
def cons (token : Token) (line : Line) : Line :=
  ⟨token :: line.tokens, line.stop⟩

/-- The lines of a token list, up to the first end of input. A list without an end
of input ends where the list does. -/
def ofTokens : List Token → List Line
  | [] => [⟨[], ⟨.endOfInput, .point 1 1⟩⟩]
  | token :: rest =>
      match token.kind with
      | .endOfInput => [⟨[], token⟩]
      | .newline => ⟨[], token⟩ :: ofTokens rest
      | _ => (ofTokens rest).modifyHead (cons token)

/-- A token that does not end its line belongs to the line it stands in front of. -/
theorem ofTokens_cons {token : Token} (inner : token.kind.isLineEnd = false)
    (rest : List Token) :
    ofTokens (token :: rest) = (ofTokens rest).modifyHead (cons token) := by
  rw [ofTokens]
  split
  next last => simp [last, Token.Kind.isLineEnd] at inner
  next last => simp [last, Token.Kind.isLineEnd] at inner
  next => rfl

/-- Tokens that do not end their line belong to the line they stand in front of. -/
theorem ofTokens_append {front : List Token}
    (inner : ∀ token ∈ front, token.kind.isLineEnd = false) (rest : List Token) :
    ofTokens (front ++ rest) =
      (ofTokens rest).modifyHead fun line => ⟨front ++ line.tokens, line.stop⟩ := by
  induction front with
  | nil => cases h : ofTokens rest <;> simp [h]
  | cons token front ih =>
      rw [List.forall_mem_cons] at inner
      rw [List.cons_append, ofTokens_cons inner.1, ih inner.2, List.modifyHead_modifyHead]
      rfl

/-- Tokens up to one that ends a line are that line. -/
theorem ofTokens_append_cons {front : List Token} {stop : Token}
    (inner : ∀ token ∈ front, token.kind.isLineEnd = false) (last : stop.kind.isLineEnd = true)
    (below : List Token) :
    ofTokens (front ++ stop :: below) =
      ⟨front, stop⟩ :: if stop.kind = .newline then ofTokens below else [] := by
  rw [ofTokens_append inner, ofTokens]
  split
  next ends => simp [ends]
  next ends => simp [ends]
  next other newline =>
    obtain same | same := Token.Kind.isLineEnd_iff.1 last
    · exact absurd same newline
    · exact absurd same other

/-- Pass over a token of a given kind; at any other token, fail with what `remark`
says of it. -/
def expect (stop : Token) (kind : Token.Kind) (remark : Token → List Remark) :
    List Token → Reading (List Token)
  | [] => .fail (remark stop)
  | token :: rest => if token.kind = kind then pure rest else .fail (remark token)

/-- The end of a statement: a semicolon, and nothing behind it. `last` is the last
token of the line. -/
def readEnd (last : Token) : List Token → Reading Unit
  | [] => .fail [⟨.missingSemicolon, last.span⟩]
  | [token] => if token.kind = .semicolon then pure () else .fail (unexpected .semicolon token)
  | token :: next :: _ =>
      if token.kind = .semicolon then .fail [⟨.trailingTokens next.kind, next.span⟩]
      else .fail (unexpected .semicolon token)

/-- The brackets of an action's call. -/
def readCall (stop : Token) (tokens : List Token) : Reading (List Token) := do
  let tokens ← expect stop .openParen (unexpected .openParen) tokens
  expect stop .closeParen (unexpected .closeParen) tokens

/-- The count of a repetition. -/
def readCount (stop : Token) : List Token → Reading (UInt32 × List Token)
  | [] => .fail (malformed .loopCount stop)
  | ⟨.digits text, place⟩ :: rest =>
      match count? text with
      | some count => pure (count, rest)
      | none => .fail [⟨.countOutOfRange text, place⟩]
  | token :: _ => .fail (malformed .loopCount token)

/-- The entries of a command list and its closing bracket. -/
def readBody (source : Source) (stop : Token) (tokens : List Token) :
    Reading (List Primitive × List Token) := do
  let listing := Listing.ofTokens 0 tokens
  let body ← Entry.readAll source listing.entries
  match listing.rest? with
  | some rest => return (body, rest)
  | none => .fail (malformed .listClose stop)

/-- A repetition behind its opening word, up to its closing bracket. -/
def readLoop (source : Source) (stop : Token) (tokens : List Token) :
    Reading (Command × List Token) := do
  let tokens ← expect stop .openParen (malformed .loopOpen) tokens
  let (count, tokens) ← readCount stop tokens
  let tokens ← expect stop .comma (malformed .loopComma) tokens
  let tokens ← expect stop .openBracket (malformed .listOpen) tokens
  let (body, tokens) ← readBody source stop tokens
  let tokens ← expect stop .closeParen (malformed .loopClose) tokens
  return (.loop count body, tokens)

/-- The command that starts with the token `first`, and the tokens behind it. -/
def readCommand (source : Source) (stop first : Token) (rest : List Token) :
    Reading (Command × List Token) :=
  match first.kind with
  | .primitive p => do
      let rest ← readCall stop rest
      return (.primitive p, rest)
  | .loop => readLoop source stop rest
  | .word name => .fail [⟨.unknownCommand name, first.span⟩]
  | _ => .fail (unexpected .command first)

/-- The statement of a line that has a first token. -/
def readStatement (source : Source) (stop first : Token) (rest : List Token) :
    Reading Statement := do
  let last := (rest.getLast?).getD first
  let (command, tail) ← readCommand source stop first rest
  readEnd last tail
  return ⟨command, first.span.merge last.span⟩

/-- The statement of a line, if it has one. -/
def read (source : Source) (line : Line) : Reading Statement :=
  match line.tokens with
  | [] => .fail []
  | first :: rest => readStatement source line.stop first rest

end Line

end Rocket

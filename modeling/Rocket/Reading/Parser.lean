import Rocket.Reading.Basic

/-!
# Parsers

A parser reads a token list from a place on, one token at a time. It ends at some
place, whether it has understood what it read or not.

## Implementation notes

Places are counted from zero. Behind the end of the list the last token comes again
and again, so a loop may find no reason to end. `Parser.iterate` therefore gives up on
a loop whose last round has not come nearer to the end of the list. If the list has an
end of input, this does not happen: no loop goes past it.
-/

namespace Rocket

/-- A way to read some tokens from a place on: what is read, and the place behind it. -/
structure Parser (α : Type) where
  run : (tokens : Array Token) → (place : Nat) → Reading α × Nat

namespace Parser

variable {α β σ : Type}

/-- Read on from the value of a part. -/
def andThen (p : Parser α) (f : α → Parser β) : Parser β where
  run tokens place :=
    match p.run tokens place with
    | (⟨remarks, none⟩, place) => (⟨remarks, none⟩, place)
    | (⟨remarks, some a⟩, place) =>
        let (reading, place) := (f a).run tokens place
        (⟨remarks ++ reading.remarks, reading.value?⟩, place)

instance : Monad Parser where
  pure a := ⟨fun _ place => (pure a, place)⟩
  bind := andThen

/-- Take over a reading, without moving. -/
def ofReading (reading : Reading α) : Parser α :=
  ⟨fun _ place => (reading, place)⟩

/-- Nothing is understood. -/
def fail (remarks : List Remark) : Parser α :=
  ofReading (.fail remarks)

/-- The token at a place. Behind the end of the list this is the last one. -/
def tokenAt (tokens : Array Token) (place : Nat) : Token :=
  (tokens[place]?.or tokens.back?).getD ⟨.endOfInput, .point 1 1⟩

/-- The next token. -/
def token : Parser Token :=
  ⟨fun tokens place => (pure (tokenAt tokens place), place)⟩

/-- Where the token before a place is. -/
def spanBefore (tokens : Array Token) : (place : Nat) → Span
  | 0 => .point 1 1
  | place + 1 => (tokens[place]?).elim (.point 1 1) (·.span)

/-- Where the token before is. -/
def previous : Parser Span :=
  ⟨fun tokens place => (pure (spanBefore tokens place), place)⟩

/-- Pass over the next token. -/
def advance : Parser Token :=
  ⟨fun tokens place =>
    (pure (tokenAt tokens place), if place < tokens.size then place + 1 else place)⟩

/-- Pass over the next token if it is of the given kind. -/
def eat (kind : Token.Kind) : Parser Bool := do
  if (← token).kind = kind then
    let _ ← advance
    return true
  else return false

/-- Go on behind a part that is not understood, with what there is to remark on it. -/
def recover (p : Parser α) : Parser (Option α) where
  run tokens place :=
    let (reading, place) := p.run tokens place
    (.tell reading.remarks reading.value?, place)

/-- The rounds of a loop from a place on. -/
def iterateFrom (round : σ → Parser (σ ⊕ α)) (tokens : Array Token) (s : σ) (place : Nat) :
    Reading α × Nat :=
  match (round s).run tokens place with
  | (⟨remarks, none⟩, after) => (⟨remarks, none⟩, after)
  | (⟨remarks, some (.inr a)⟩, after) => (⟨remarks, some a⟩, after)
  | (⟨remarks, some (.inl s)⟩, after) =>
      if _nearer : tokens.size - after < tokens.size - place then
        let (reading, last) := iterateFrom round tokens s after
        (⟨remarks ++ reading.remarks, reading.value?⟩, last)
      else (⟨remarks, none⟩, after)
termination_by tokens.size - place

/-- A loop: each round passes something on to the next one, until one has a result. -/
def iterate (round : σ → Parser (σ ⊕ α)) (s : σ) : Parser α :=
  ⟨fun tokens place => iterateFrom round tokens s place⟩

end Parser

end Rocket

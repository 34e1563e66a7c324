/-!
# Spans

A place in a source text: a line and a range of columns on it, all counted from
one. No construct of the language spans more than one line.
-/

namespace Rocket

/-- Columns `startCol` to `endCol` of a line, both ends included. -/
structure Span where
  line : Nat
  startCol : Nat
  endCol : Nat
  deriving DecidableEq

namespace Span

/-- A single column. -/
def point (line col : Nat) : Span :=
  ⟨line, col, col⟩

/-- The least span that covers both on a common line; otherwise the one on the
earlier line. -/
def merge (a b : Span) : Span :=
  if a.line = b.line then ⟨a.line, min a.startCol b.startCol, max a.endCol b.endCol⟩
  else if a.line < b.line then a
  else b

/-- Number of columns covered; zero if the end lies before the start. -/
def width (s : Span) : Nat :=
  s.endCol + 1 - s.startCol

/-- Line and first column. -/
def text (s : Span) : String :=
  toString s.line ++ ":" ++ toString s.startCol

theorem merge_of_line_eq {a b : Span} (h : a.line = b.line) :
    a.merge b = ⟨a.line, min a.startCol b.startCol, max a.endCol b.endCol⟩ := by
  simp [merge, h]

theorem merge_line (a b : Span) : (a.merge b).line = min a.line b.line := by
  unfold merge
  split
  next h => simp [h]
  next => split <;> omega

end Span

end Rocket

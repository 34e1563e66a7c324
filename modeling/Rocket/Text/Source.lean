import Rocket.Text.Span
import Rocket.Text.Trim

/-!
# Source texts

A named text and its lines, which are cut at the newline characters. The lines keep
a carriage return before the newline, since columns count it; quoting a line in a
report leaves it out.
-/

namespace Rocket

/-- A named text with its lines. -/
structure Source where
  name : String
  text : String
  /-- The lines of the text. A newline at its end starts one more, empty line. -/
  lines : List (List Char)
  lines_eq : lines = text.toList.splitOn '\n'

namespace Source

/-- The source with the given text. -/
def ofText (name text : String) : Source :=
  ⟨name, text, text.toList.splitOn '\n', rfl⟩

def lineCount (source : Source) : Nat :=
  source.lines.length

/-- A line, counted from one, without the carriage returns at its end. -/
def line? (source : Source) : Nat → Option (List Char)
  | 0 => none
  | n + 1 => (source.lines[n]?).map (Text.trimEnd (· = '\r'))

/-- A line as a report quotes it, empty if there is none of that number. -/
def quote (source : Source) (n : Nat) : List Char :=
  (source.line? n).getD []

/-- The characters that a span covers. -/
def cut (source : Source) (span : Span) : List Char :=
  ((source.quote span.line).drop (span.startCol - 1)).take span.width

theorem lines_ofText (name text : String) :
    (ofText name text).lines = text.toList.splitOn '\n' := rfl

@[simp]
theorem line?_zero (source : Source) : source.line? 0 = none := rfl

theorem line?_succ (source : Source) (n : Nat) :
    source.line? (n + 1) = (source.lines[n]?).map (Text.trimEnd (· = '\r')) := rfl

end Source

end Rocket

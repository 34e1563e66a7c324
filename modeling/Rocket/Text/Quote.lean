/-!
# Quote characters

The two characters that open and close string literals. Either may close what the
other has opened, so both count as quotes everywhere.
-/

namespace Rocket.Text

/-- Whether a character is a single or a double quote. -/
def isQuote (c : Char) : Bool :=
  c = '"' ∨ c = '\''

theorem isQuote_iff {c : Char} : isQuote c = true ↔ c ∈ ['"', '\''] := by
  simp [isQuote]

end Rocket.Text

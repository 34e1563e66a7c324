/-!
# Trimming

Removing the characters of a class from the ends of a text. Texts are lists of
characters here and in every module that takes text apart.
-/

namespace Rocket.Text

/-- The text without the run of `p` characters at its end. A text that does not end
in such a character is not taken apart. -/
def trimEnd (p : Char → Bool) (text : List Char) : List Char :=
  if text.getLast?.any p then (text.reverse.dropWhile p).reverse else text

/-- The text without the runs of `p` characters at both ends. -/
def trim (p : Char → Bool) (text : List Char) : List Char :=
  trimEnd p (text.dropWhile p)

@[simp]
theorem trimEnd_nil (p : Char → Bool) : trimEnd p [] = [] := rfl

@[simp]
theorem trim_nil (p : Char → Bool) : trim p [] = [] := rfl

theorem trimEnd_eq_reverse (p : Char → Bool) (text : List Char) :
    trimEnd p text = (text.reverse.dropWhile p).reverse := by
  unfold trimEnd
  split
  · rfl
  next h =>
    rcases List.eq_nil_or_concat text with rfl | ⟨front, last, rfl⟩
    · rfl
    · simp_all

end Rocket.Text

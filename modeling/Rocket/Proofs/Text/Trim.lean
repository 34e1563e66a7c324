import Rocket.Text.Blank

/-!
# Trimmed texts

What is left of a text when the characters of a class are taken from its ends: a part
of it that neither starts nor ends with one. There is only one such part, and trimming
finds it. If all characters are of the class, nothing is left.
-/

namespace Rocket.Text

/-- Whether a character is white space, by the ranges of the Unicode property. -/
def IsWhiteSpace (c : Char) : Prop :=
  (0x9 ≤ c.toNat ∧ c.toNat ≤ 0xD) ∨ c.toNat ∈ [0x20, 0x85, 0xA0, 0x1680] ∨
    (0x2000 ≤ c.toNat ∧ c.toNat ≤ 0x200A) ∨ c.toNat ∈ [0x2028, 0x2029, 0x202F, 0x205F, 0x3000]

/-- Whether a text is `inside` with characters of a class around it, which `inside` neither
starts nor ends with. -/
structure IsTrimmed (p : Char → Prop) (text inside : List Char) : Prop where
  split : ∃ front back, text = front ++ (inside ++ back) ∧ (∀ c ∈ front, p c) ∧ ∀ c ∈ back, p c
  first : ∀ c ∈ inside.head?, ¬ p c
  last : ∀ c ∈ inside.getLast?, ¬ p c

theorem isBlank_iff {c : Char} : isBlank c = true ↔ IsWhiteSpace c := by
  simp only [isBlank, blankCodes, IsWhiteSpace, List.contains_iff_mem, List.mem_cons,
    List.not_mem_nil, or_false]
  omega

section Class

variable {p : Char → Bool} {text back inside : List Char}

theorem trimEnd_append_of_all (all : ∀ c ∈ back, p c = true) :
    trimEnd p (text ++ back) = trimEnd p text := by
  have reversed : ∀ c ∈ back.reverse, p c = true :=
    fun c member => all c (List.mem_reverse.1 member)
  rw [trimEnd_eq_reverse, trimEnd_eq_reverse, List.reverse_append,
    List.dropWhile_append_of_pos reversed]

theorem trimEnd_eq_self (last : ∀ c ∈ text.getLast?, ¬ p c = true) : trimEnd p text = text := by
  rw [trimEnd, if_neg]
  rw [Option.any_eq_true_iff_get]
  rintro ⟨some, ends⟩
  exact last _ (Option.get_mem some) ends

/-- What is taken from the end of a text is of the class. -/
theorem exists_trimEnd_append (p : Char → Bool) (text : List Char) :
    ∃ back, text = trimEnd p text ++ back ∧ ∀ c ∈ back, p c = true := by
  refine ⟨(text.reverse.takeWhile p).reverse, ?_, ?_⟩
  · rw [trimEnd_eq_reverse, ← List.reverse_append, List.takeWhile_append_dropWhile,
      List.reverse_reverse]
  · intro c member
    exact List.all_eq_true.1 List.all_takeWhile c (List.mem_reverse.1 member)

/-- No character of the class is left at the end. -/
theorem not_of_mem_getLast?_trimEnd (p : Char → Bool) (text : List Char) :
    ∀ c ∈ (trimEnd p text).getLast?, ¬ p c = true := by
  intro c last
  have stops := List.head?_dropWhile_not p text.reverse
  rw [trimEnd_eq_reverse, List.getLast?_reverse, Option.mem_def] at last
  rw [last] at stops
  simpa using stops

/-- Trimming finds what is left of a text. -/
theorem isTrimmed_iff : IsTrimmed (p · = true) text inside ↔ trim p text = inside := by
  constructor
  · rintro ⟨⟨front, back, rfl, before, behind⟩, first, last⟩
    rw [trim, List.dropWhile_append_of_pos before]
    cases inside with
    | nil =>
        have gone : (back ++ []).dropWhile p = [] := List.dropWhile_append_of_pos behind
        rw [List.append_nil] at gone
        rw [List.nil_append, gone, trimEnd_nil]
    | cons c more =>
        rw [List.cons_append, List.dropWhile_cons_of_neg (first c rfl), ← List.cons_append,
          trimEnd_append_of_all behind, trimEnd_eq_self last]
  · rintro rfl
    obtain ⟨back, split, behind⟩ := exists_trimEnd_append p (text.dropWhile p)
    refine ⟨⟨text.takeWhile p, back, ?_, ?_, behind⟩, ?_, not_of_mem_getLast?_trimEnd _ _⟩
    · rw [trim, ← split, List.takeWhile_append_dropWhile]
    · exact List.all_eq_true.1 List.all_takeWhile
    · intro c first
      have stops := List.head?_dropWhile_not p text
      rw [Option.mem_def, trim] at first
      rw [split, List.head?_append, first] at stops
      simpa using stops

end Class

end Rocket.Text

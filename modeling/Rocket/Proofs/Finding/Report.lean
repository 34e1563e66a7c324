import Mathlib
import Rocket.Finding.Basic

/-!
# What a report underlines

The report on a finding quotes a line of the source and puts carets on the line below. The
two lines start with margins that are equally wide, so that a caret stands under each column
of the span, counted from the start of the quoted text.

## Implementation notes

A line can have fewer columns than a span on it: the token that ends a line is one column
behind the last character. Carets without a character above them underline nothing.
-/

namespace Rocket

namespace Finding

/-- The characters of a line that have a caret under them on the next line. -/
def overCarets (line marks : List Char) : List Char :=
  ((line.zip marks).filter (·.2 = '^')).map (·.1)

@[simp]
theorem overCarets_nil (marks : List Char) : overCarets [] marks = [] := rfl

theorem overCarets_cons_caret (c : Char) (line marks : List Char) :
    overCarets (c :: line) ('^' :: marks) = c :: overCarets line marks := by
  simp [overCarets]

theorem overCarets_cons_blank (c : Char) (line marks : List Char) :
    overCarets (c :: line) (' ' :: marks) = overCarets line marks := by
  simp [overCarets]

theorem overCarets_append {left under : List Char} (same : left.length = under.length)
    (line marks : List Char) :
    overCarets (left ++ line) (under ++ marks) =
      overCarets left under ++ overCarets line marks := by
  rw [overCarets, List.zip_append same, List.filter_append, List.map_append]
  rfl

theorem overCarets_of_notMem {under : List Char} (none : '^' ∉ under) (line : List Char) :
    overCarets line under = [] := by
  rw [overCarets, List.map_eq_nil_iff, List.filter_eq_nil_iff]
  intro p member caret
  rw [decide_eq_true_iff] at caret
  exact none (caret ▸ (List.of_mem_zip member).2)

/-- Carets behind blanks are under that many characters. -/
theorem overCarets_replicate (line : List Char) (blanks carets : Nat) :
    overCarets line (List.replicate blanks ' ' ++ List.replicate carets '^') =
      (line.drop blanks).take carets := by
  induction blanks generalizing line with
  | zero =>
      rw [List.replicate_zero, List.nil_append, List.drop_zero]
      induction carets generalizing line with
      | zero => simp [overCarets]
      | succ carets ih =>
          cases line with
          | nil => rfl
          | cons c line =>
              rw [List.replicate_succ, overCarets_cons_caret, ih, List.take_succ_cons]
  | succ blanks ih =>
      cases line with
      | nil => rw [overCarets_nil, List.drop_nil, List.take_nil]
      | cons c line =>
          rw [List.replicate_succ, List.cons_append, overCarets_cons_blank, ih,
            List.drop_succ_cons]

variable (finding : Finding)

/-- The characters of the quoted line that the report on a finding underlines. -/
def underlined : List Char :=
  overCarets finding.quoteLine finding.caretLine

/-- Whether the report on a finding quotes the line it is about and, on the next line, has a
caret for each column of its span: as far to the right, behind a margin that is equally
wide, as the column is in the quoted line. -/
structure IsUnderlined : Prop where
  report : ∃ above below, finding.report.toList.splitOn '\n' =
    above ++ finding.quoteLine :: finding.caretLine :: below
  carets : ∃ left under : List Char, left.length = under.length ∧ '^' ∉ under ∧
    finding.quoteLine = left ++ finding.sourceLine.toList ∧
    finding.caretLine = under ++ (List.replicate (finding.span.startCol - 1) ' ' ++
      List.replicate (finding.span.endCol - finding.span.startCol + 1) '^')

theorem caret_notMem_margin : '^' ∉ finding.gutter ++ margin := by
  simp [gutter, margin]

/-- The characters above carets are those that the carets are under. -/
theorem underlined_eq : finding.underlined =
    (finding.sourceLine.toList.drop (finding.span.startCol - 1)).take
      (max 1 finding.span.width) := by
  have same : (finding.lineNumber ++ margin).length = (finding.gutter ++ margin).length := by
    rw [List.length_append, List.length_append, length_gutter]
  rw [underlined, quoteLine, caretLine, List.append_assoc _ (List.replicate _ ' '),
    overCarets_append same, overCarets_of_notMem finding.caret_notMem_margin, List.nil_append,
    carets, overCarets_replicate]

theorem newline_notMem_caretLine : '\n' ∉ finding.caretLine := by
  simp [caretLine, gutter, margin, carets]

theorem newline_notMem_quoteLine (line : '\n' ∉ finding.sourceLine.toList) :
    '\n' ∉ finding.quoteLine := by
  have number : '\n' ∉ finding.lineNumber := by
    intro member
    have digit := Nat.isDigit_of_mem_toDigits (by decide) (by decide) member
    cases digit
  simp [quoteLine, margin, number, line]

/-- The report has the quoted line and, right below, the line with the carets. -/
theorem exists_splitOn_report (line : '\n' ∉ finding.sourceLine.toList) :
    ∃ above below, finding.report.toList.splitOn '\n' =
      above ++ finding.quoteLine :: finding.caretLine :: below := by
  obtain ⟨first, second, third, help, shape⟩ : ∃ first second third help,
      finding.reportLines = first :: second :: third :: String.ofList finding.quoteLine
        :: String.ofList finding.caretLine :: help := ⟨_, _, _, _, rfl⟩
  obtain ⟨front, back, text⟩ : ∃ front back, finding.report.toList =
      front ++ '\n' :: (finding.quoteLine ++ '\n' :: (finding.caretLine ++ '\n' :: back)) := by
    refine ⟨(first ++ "\n" ++ second ++ "\n" ++ third).toList,
      (String.join (help.map (· ++ "\n"))).toList, ?_⟩
    rw [report, shape]
    simp [String.toList_join]
  rw [text, List.splitOn_append_cons_self, List.splitOn_append_cons_self,
    List.splitOn_append_cons_self,
    List.splitOn_eq_singleton (finding.newline_notMem_quoteLine line),
    List.splitOn_eq_singleton finding.newline_notMem_caretLine]
  exact ⟨_, _, rfl⟩

/-- The report underlines the columns of the span. -/
theorem isUnderlined (line : '\n' ∉ finding.sourceLine.toList)
    (order : finding.span.startCol ≤ finding.span.endCol) : finding.IsUnderlined where
  report := finding.exists_splitOn_report line
  carets := by
    have width : max 1 finding.span.width =
        finding.span.endCol - finding.span.startCol + 1 := by
      rw [Span.width]
      omega
    refine ⟨finding.lineNumber ++ margin, finding.gutter ++ margin, ?_,
      finding.caret_notMem_margin, rfl, ?_⟩
    · rw [List.length_append, List.length_append, length_gutter]
    · rw [caretLine, Finding.carets, width, List.append_assoc _ (List.replicate _ ' ')]

end Finding

end Rocket

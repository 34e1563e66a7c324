import Rocket.Finding.Basic

/-!
# Collected findings

The findings about one source. Of each severity only the first few are kept, but
all are counted.
-/

namespace Rocket

/-- Findings by severity, in order of arrival, and how many there were. -/
structure Findings where
  errors : List Finding
  warnings : List Finding
  totalErrors : Nat
  totalWarnings : Nat
  deriving DecidableEq

namespace Findings

/-- How many findings of a severity are kept. -/
def capacity : Nat := 20

def empty : Findings :=
  ⟨[], [], 0, 0⟩

def hasErrors (fs : Findings) : Bool :=
  0 < fs.totalErrors

def hasWarnings (fs : Findings) : Bool :=
  0 < fs.totalWarnings

/-- Keep a finding if there is room for it. -/
def keep (kept : List Finding) (finding : Finding) : List Finding :=
  if kept.length < capacity then kept ++ [finding] else kept

/-- Record a finding. -/
def push (fs : Findings) (finding : Finding) : Findings :=
  match finding.severity with
  | .error => { fs with errors := keep fs.errors finding, totalErrors := fs.totalErrors + 1 }
  | .warning =>
      { fs with warnings := keep fs.warnings finding, totalWarnings := fs.totalWarnings + 1 }

/-- Record findings one after another. -/
def pushAll (fs : Findings) (findings : List Finding) : Findings :=
  findings.foldl push fs

/-- Record findings in a collection of their own. -/
def collect (findings : List Finding) : Findings :=
  empty.pushAll findings

/-- The findings of a source read in one mode, given what there is to remark. They
all have the severity of the mode. -/
def ofRemarks (source : Source) (mode : Mode) (remarks : List Remark) : Findings :=
  let kept := (remarks.take capacity).map (.ofRemark source mode)
  match mode with
  | .permissive => ⟨[], kept, 0, remarks.length⟩
  | .strict => ⟨kept, [], remarks.length, 0⟩

/-- Move every finding of `other` over. Those that `other` counted without
keeping are counted again. -/
def extend (fs other : Findings) : Findings :=
  let merged := fs.pushAll (other.errors ++ other.warnings)
  { merged with
    totalErrors := merged.totalErrors + (other.totalErrors - other.errors.length)
    totalWarnings := merged.totalWarnings + (other.totalWarnings - other.warnings.length) }

/-- Whether the first finding starts no later in the source than the second. -/
def startsBy (a b : Finding) : Bool :=
  a.span.line < b.span.line ∨ a.span.line = b.span.line ∧ a.span.startCol ≤ b.span.startCol

/-- All kept findings in source order. Findings at one place keep their order,
errors first. -/
def sorted (fs : Findings) : List Finding :=
  (fs.errors ++ fs.warnings).mergeSort startsBy

/-- A number and a noun in the singular or plural. -/
def counted (n : Nat) (noun : String) : String :=
  toString n ++ " " ++ noun ++ if n = 1 then "" else "s"

/-- How many errors and warnings there are, in words. -/
def summary (fs : Findings) : String :=
  match fs.totalErrors, fs.totalWarnings with
  | 0, 0 => "no problems"
  | 0, w => counted w "warning"
  | e, 0 => counted e "error"
  | e, w => counted e "error" ++ ", " ++ counted w "warning"

/-- The reports on all kept findings, in source order. -/
def reports (fs : Findings) : String :=
  String.join (fs.sorted.map Finding.report)

@[simp]
theorem collect_nil : collect [] = empty := rfl

theorem collect_append (xs ys : List Finding) :
    collect (xs ++ ys) = (collect xs).pushAll ys := by
  simp [collect, pushAll]

/-- Keeping findings one after another keeps the first ones. -/
theorem foldl_keep (findings kept : List Finding) (h : kept.length ≤ capacity) :
    findings.foldl keep kept = (kept ++ findings).take capacity := by
  induction findings generalizing kept with
  | nil => simp [List.take_of_length_le h]
  | cons f rest ih =>
      rw [List.foldl_cons]
      by_cases room : kept.length < capacity
      · rw [keep, if_pos room, ih _ (by simp; omega)]
        simp
      · rw [keep, if_neg room, ih _ h, List.take_append_of_le_length (by omega),
          List.take_append_of_le_length (by omega)]

theorem pushAll_errors (findings : List Finding) (fs : Findings)
    (all : ∀ f ∈ findings, f.severity = .error) :
    fs.pushAll findings =
      { fs with
        errors := findings.foldl keep fs.errors
        totalErrors := fs.totalErrors + findings.length } := by
  induction findings generalizing fs with
  | nil => rfl
  | cons f rest ih =>
      have tail := ih (fs.push f) fun g hg => all g (by simp [hg])
      simpa [pushAll, push, all f, Nat.add_assoc, Nat.add_comm 1] using tail

theorem pushAll_warnings (findings : List Finding) (fs : Findings)
    (all : ∀ f ∈ findings, f.severity = .warning) :
    fs.pushAll findings =
      { fs with
        warnings := findings.foldl keep fs.warnings
        totalWarnings := fs.totalWarnings + findings.length } := by
  induction findings generalizing fs with
  | nil => rfl
  | cons f rest ih =>
      have tail := ih (fs.push f) fun g hg => all g (by simp [hg])
      simpa [pushAll, push, all f, Nat.add_assoc, Nat.add_comm 1] using tail

/-- The findings of a source are what recording them one by one comes to. -/
theorem ofRemarks_eq_collect (source : Source) (mode : Mode) (remarks : List Remark) :
    ofRemarks source mode remarks = collect (remarks.map (.ofRemark source mode)) := by
  cases mode with
  | permissive =>
      rw [collect, pushAll_warnings _ _ (by simp [Finding.ofRemark, Mode.severity])]
      simp [ofRemarks, empty, foldl_keep, List.map_take]
  | strict =>
      rw [collect, pushAll_errors _ _ (by simp [Finding.ofRemark, Mode.severity])]
      simp [ofRemarks, empty, foldl_keep, List.map_take]

end Findings

end Rocket

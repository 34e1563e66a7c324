import Mathlib.Logic.Function.Basic
import Rocket.Proofs.Finding.Order

/-!
# Merged collections

Collections are filled by recording findings, by moving other collections over, and by
taking their content away. However a collection came about, it is the one that its findings
make when they are recorded one after another, those that were not kept on the way included.

## Implementation notes

Collections live in numbered slots. What has arrived in each of them is followed beside
them, in lists that know nothing of a capacity or of counts.
-/

namespace Rocket.Findings

/-- Move every finding of `other` over, unless it keeps more findings than it counted. -/
def extend? (fs other : Findings) : Option Findings :=
  if other.errors.length ≤ other.totalErrors ∧ other.warnings.length ≤ other.totalWarnings then
    some (fs.extend other)
  else none

/-- What can be done with collections in slots. -/
inductive Transfer where
  /-- Record a finding in slot `i`. -/
  | push (i : Nat) (finding : Finding)
  /-- Move the content of slot `j` over to that of slot `i`. -/
  | extend (i j : Nat)
  /-- Take the content of slot `i` away and put it into slot `j`. -/
  | take (i j : Nat)

namespace Transfer

open Function (update)

/-- The slots after a transfer. -/
def act (slots : Nat → Findings) : Transfer → Option (Nat → Findings)
  | .push i finding => some (update slots i ((slots i).push finding))
  | .extend i j =>
      let others := update slots j empty
      ((others i).extend? (slots j)).map (update others i)
  | .take i j => some (update (update slots i empty) j (slots i))

/-- What has arrived in the slots after a transfer, in order. -/
def arrive (arrived : Nat → List Finding) : Transfer → Nat → List Finding
  | .push i finding => update arrived i (arrived i ++ [finding])
  | .extend i j =>
      let others := update arrived j []
      update others i (others i ++ arrived j)
  | .take i j => update (update arrived i []) j (arrived i)

/-- The slots after some transfers, where all were empty at first. -/
def actAll (transfers : List Transfer) : Option (Nat → Findings) :=
  transfers.foldlM act fun _ => empty

/-- What has arrived in the slots after some transfers. -/
def arriveAll (transfers : List Transfer) : Nat → List Finding :=
  transfers.foldl arrive fun _ => []

end Transfer

theorem push_collect (findings : List Finding) (finding : Finding) :
    (collect findings).push finding = collect (findings ++ [finding]) :=
  (collect_append findings [finding]).symm

/-- A collection of its own keeps no more findings than it counted. -/
theorem extend?_collect (xs ys : List Finding) :
    (collect xs).extend? (collect ys) = some (collect (xs ++ ys)) := by
  have counted : (collect ys).errors.length ≤ (collect ys).totalErrors ∧
      (collect ys).warnings.length ≤ (collect ys).totalWarnings := by
    rw [collect_eq]
    exact ⟨List.length_take_le' _ _, List.length_take_le' _ _⟩
  rw [extend?, if_pos counted, extend_collect]

namespace Transfer

open Function (update)

/-- Something else arrives in one slot, and the others stay. -/
theorem collect_update (arrived : Nat → List Finding) (i : Nat) (findings : List Finding) :
    (fun k => collect (update arrived i findings k)) =
      update (fun k => collect (arrived k)) i (collect findings) := by
  funext k
  exact Function.apply_update (fun _ => collect) arrived i findings k

/-- After a transfer the slots hold what has arrived in them, if they did before. -/
theorem act_collect (arrived : Nat → List Finding) (transfer : Transfer) :
    transfer.act (fun k => collect (arrived k)) =
      some fun k => collect (transfer.arrive arrived k) := by
  cases transfer with
  | push i finding => rw [act, arrive, collect_update, push_collect]
  | extend i j =>
      have others : update (fun k => collect (arrived k)) j empty =
          fun k => collect (update arrived j [] k) := (collect_update arrived j []).symm
      rw [act, others]
      dsimp only
      rw [extend?_collect, Option.map_some]
      exact congrArg some (collect_update (update arrived j []) i _).symm
  | take i j => rw [act, arrive, collect_update, collect_update, collect_nil]

/-- After any transfers the slots hold what has arrived in them. -/
theorem actAll_eq (transfers : List Transfer) :
    actAll transfers = some fun k => collect (arriveAll transfers k) := by
  have held : ∀ arrived : Nat → List Finding,
      transfers.foldlM act (fun k => collect (arrived k)) =
        some fun k => collect (transfers.foldl arrive arrived k) := by
    induction transfers with
    | nil => exact fun _ => rfl
    | cons transfer rest ih =>
        intro arrived
        rw [List.foldlM_cons, act_collect]
        exact ih (transfer.arrive arrived)
  exact held fun _ => []

end Transfer

/-- Whether a collection holds what has arrived in it: of either severity it keeps the first
twenty findings and counts all of them. -/
structure Holds (arrived : List Finding) (fs : Findings) : Prop where
  errors : fs.errors = (arrived.filter (·.severity = .error)).take 20
  warnings : fs.warnings = (arrived.filter (·.severity = .warning)).take 20
  totalErrors : fs.totalErrors = arrived.countP (·.severity = .error)
  totalWarnings : fs.totalWarnings = arrived.countP (·.severity = .warning)
  keptErrors : fs.errors.length = min 20 fs.totalErrors
  keptWarnings : fs.warnings.length = min 20 fs.totalWarnings

theorem not_isError_eq (finding : Finding) :
    (!finding.isError) = decide (finding.severity = .warning) := by
  unfold Finding.isError
  cases finding.severity <;> rfl

theorem holds_collect (findings : List Finding) : (collect findings).Holds findings := by
  have warnings : (fun finding : Finding => !finding.isError) =
      fun finding => decide (finding.severity = .warning) := funext not_isError_eq
  rw [collect_eq, warnings]
  exact ⟨rfl, rfl, List.countP_eq_length_filter.symm, List.countP_eq_length_filter.symm,
    List.length_take, List.length_take⟩

/-- Whether a finding starts at a given place. -/
def isAt (line col : Nat) (finding : Finding) : Bool :=
  finding.span.line = line ∧ finding.span.startCol = col

/-- Whether some findings are the kept ones in source order. Those that start at one place
come as they are kept, errors first. -/
structure IsInOrder (fs : Findings) (findings : List Finding) : Prop where
  perm : findings.Perm (fs.errors ++ fs.warnings)
  ordered : findings.Pairwise fun a b => a.span.line < b.span.line ∨
    a.span.line = b.span.line ∧ a.span.startCol ≤ b.span.startCol
  stable : ∀ line col, findings.filter (isAt line col) =
    fs.errors.filter (isAt line col) ++ fs.warnings.filter (isAt line col)

/-- Sorting does not exchange findings that start at one place. -/
theorem filter_isAt_sorted (fs : Findings) (line col : Nat) :
    fs.sorted.filter (isAt line col) = (fs.errors ++ fs.warnings).filter (isAt line col) := by
  have together : ((fs.errors ++ fs.warnings).filter (isAt line col)).Pairwise
      (startsBy · · = true) := by
    refine List.pairwise_of_forall_mem_list fun a here b there => ?_
    have first := of_decide_eq_true (List.mem_filter.1 here).2
    have second := of_decide_eq_true (List.mem_filter.1 there).2
    exact startsBy_iff.2 (by omega)
  have kept := (List.sublist_mergeSort startsBy_trans startsBy_total together
    List.filter_sublist).filter (isAt line col)
  rw [List.filter_filter] at kept
  simp only [Bool.and_self] at kept
  exact (kept.eq_of_length ((fs.perm_sorted.filter _).length_eq).symm).symm

theorem isInOrder_sorted (fs : Findings) : fs.IsInOrder fs.sorted where
  perm := fs.perm_sorted
  ordered := fs.pairwise_sorted.imp startsBy_iff.1
  stable line col := by rw [filter_isAt_sorted, List.filter_append]

/-- Moving collections over comes to recording their findings in one list, and nothing is
lost of the counts. Whatever was done with any number of collections, no more findings of
one are kept than counted, each holds what has arrived in it, and its kept findings are
listed in source order. -/
theorem merged_as_recorded :
    (∀ xs ys, (collect xs).extend (collect ys) = collect (xs ++ ys)) ∧
      ∀ transfers, ∃ slots, Transfer.actAll transfers = some slots ∧
        ∀ i, (slots i).Holds (Transfer.arriveAll transfers i) ∧
          (slots i).IsInOrder (slots i).sorted := by
  refine ⟨extend_collect, fun transfers => ⟨_, Transfer.actAll_eq transfers, fun i => ?_⟩⟩
  exact ⟨holds_collect _, isInOrder_sorted _⟩

end Rocket.Findings

import Subdomain.Proofs.Sparse.Draft
import Subdomain.Proofs.Sparse.Merge
import Subdomain.Sparse.Commit

/-!
# Merged rows and their erasures

What a commit makes of a row, apart from where it does so: the merged cells, those that the erasures
leave, and those that they remove.  A row that the draft does not touch is merged to itself, so a
commit may leave it out.
-/

namespace Subdomain

/-! ## One row -/

/-- A row merged, with the erasures that are still to be applied. -/
structure StagedRow (τ : Type) where
  /-- The merged cells. -/
  merged : List (Cell τ)
  /-- The entries to be removed. -/
  erased : SortedSet UInt64

namespace StagedRow

variable {τ : Type} {numSlots width : Nat} {existing : List (Cell τ)} {row : DraftRow τ}

/-- Merge a row's changes with its committed cells. -/
def ofRow (existing : List (Cell τ)) (row : DraftRow τ) : StagedRow τ where
  merged := Cell.merge existing row.slots (Cell.sort row.spare)
  erased := row.erased

/-- The cells that the erasures leave. -/
def kept (row : StagedRow τ) : List (Cell τ) :=
  row.merged.filter fun cell => decide (cell.entry ∉ row.erased)

/-- The cells that the erasures remove. -/
def dropped (row : StagedRow τ) : List (Cell τ) :=
  row.merged.filter fun cell => decide (cell.entry ∈ row.erased)

theorem value?_merged (existing : List (Cell τ))
    (formed : DraftRow.WellFormed numSlots width row) (entry : UInt64) :
    Cell.value? (ofRow existing row).merged entry =
      (row.written? entry).or (Cell.value? existing entry) := by
  have steps := Cell.merged_merge existing row.slots (Cell.sort row.spare)
  have written : row.written? entry =
      (Cell.value? row.slots entry).or (Cell.value? row.spare entry) := Cell.value?_append ..
  rw [ofRow, steps.value? formed.ascending (Cell.ascending_sort formed.distinct),
    Cell.value?_sort formed.distinct, written]
  cases spilled : Cell.value? row.spare entry with
  | none => simp
  | some value =>
      have unslotted := formed.apart _ (Cell.mem_of_value? spilled)
      simp [unslotted]

theorem ascending_merged (ascending : Cell.Ascending existing)
    (formed : DraftRow.WellFormed numSlots width row) :
    Cell.Ascending (ofRow existing row).merged :=
  (Cell.merged_merge ..).ascending ascending formed.ascending
    (Cell.ascending_sort formed.distinct)

theorem below_merged (below : ∀ cell ∈ existing, cell.entry.toNat < width)
    (formed : DraftRow.WellFormed numSlots width row) :
    ∀ cell ∈ (ofRow existing row).merged, cell.entry.toNat < width := by
  intro cell member
  rcases (Cell.merged_merge ..).mem member with found | found | found
  · exact below cell found
  · exact formed.below cell (List.mem_append_left _ found)
  · exact formed.below cell (List.mem_append_right _ ((Cell.perm_sort _).mem_iff.1 found))

theorem ascending_kept (ascending : Cell.Ascending existing)
    (formed : DraftRow.WellFormed numSlots width row) :
    Cell.Ascending (ofRow existing row).kept :=
  (ascending_merged ascending formed).filter _

theorem value?_kept (formed : DraftRow.WellFormed numSlots width row) (entry : UInt64) :
    Cell.value? (ofRow existing row).kept entry =
      if entry ∈ row.erased then none else (row.written? entry).or (Cell.value? existing entry) := by
  have filtered := Cell.value?_filter (fun entry => decide (entry ∉ row.erased))
    (ofRow existing row).merged entry
  rw [value?_merged existing formed] at filtered
  refine Eq.trans filtered ?_
  by_cases gone : entry ∈ row.erased <;> simp [gone]

theorem below_kept (below : ∀ cell ∈ existing, cell.entry.toNat < width)
    (formed : DraftRow.WellFormed numSlots width row) :
    ∀ cell ∈ (ofRow existing row).kept, cell.entry.toNat < width := by
  intro cell member
  rcases (Cell.merged_merge ..).mem (List.mem_filter.1 member).1 with found | found | found
  · exact below cell found
  · exact formed.below cell (List.mem_append_left _ found)
  · exact formed.below cell (List.mem_append_right _ ((Cell.perm_sort _).mem_iff.1 found))

theorem merge_nil_nil (existing : List (Cell τ)) : Cell.merge existing [] [] = existing := by
  induction existing with
  | nil => rw [Cell.merge]; rfl
  | cons head rest ih => rw [Cell.merge]; exact congrArg (head :: ·) ih

/-- A row without changes is merged to itself. -/
theorem merged_of_not_isPending (existing : List (Cell τ)) (unchanged : row.isPending = false) :
    (ofRow existing row).merged = existing ∧ row.erased.toList = [] := by
  simp only [DraftRow.isPending, DraftRow.isTouched, DraftRow.cells, Bool.or_eq_false_iff,
    Bool.not_eq_false', List.isEmpty_iff, List.append_eq_nil_iff, SortedSet.isEmpty] at unchanged
  obtain ⟨⟨slots, spare⟩, erased⟩ := unchanged
  refine ⟨?_, erased⟩
  have sorted : Cell.sort ([] : List (Cell τ)) = [] := rfl
  rw [ofRow, slots, spare, sorted, merge_nil_nil]

theorem kept_of_not_isPending (unchanged : row.isPending = false) :
    (ofRow existing row).kept = existing := by
  obtain ⟨merged, erased⟩ := merged_of_not_isPending existing unchanged
  have nothingErased : ∀ entry, entry ∉ row.erased := fun entry member => by
    simp [← SortedSet.mem_toList, erased] at member
  rw [kept, merged]
  simp [ofRow, nothingErased]

theorem dropped_of_not_isPending (unchanged : row.isPending = false) :
    (ofRow existing row).dropped = [] := by
  obtain ⟨_, erased⟩ := merged_of_not_isPending existing unchanged
  have nothingErased : ∀ entry, entry ∉ row.erased := fun entry member => by
    simp [← SortedSet.mem_toList, erased] at member
  simp [dropped, ofRow, nothingErased]

end StagedRow

/-! ## The rows of a store -/

namespace Store

variable {τ : Type}

/-- Every row that a commit keeps, in row order, whether the draft touches it or not. -/
def keptRows (pairs : List (List (Cell τ) × DraftRow τ)) : List (List (Cell τ)) :=
  pairs.map fun (existing, row) => (StagedRow.ofRow existing row).kept

/-- The rows that a draft touches, with their numbers. -/
def pendingRows (pairs : List (List (Cell τ) × DraftRow τ)) (start : Nat) :
    List (Nat × StagedRow τ) :=
  (pairs.zipIdx start).filterMap fun ((existing, row), number) =>
    if row.isPending then some (number, StagedRow.ofRow existing row) else none

theorem pendingRows_cons (existing : List (Cell τ)) (row : DraftRow τ)
    (pairs : List (List (Cell τ) × DraftRow τ)) (start : Nat) :
    pendingRows ((existing, row) :: pairs) start =
      if row.isPending then (start, StagedRow.ofRow existing row) :: pendingRows pairs (start + 1)
      else pendingRows pairs (start + 1) := by
  rw [pendingRows, List.zipIdx_cons, List.filterMap_cons]
  dsimp only
  cases row.isPending <;> rfl

/-- The exclusive rows, merged. -/
def stageExclusive (store : Store τ) (draft : Draft τ) : List (StagedRow τ) :=
  ((store.contents.zip draft.rows).take store.layout.exclusive).map
    fun (existing, row) => StagedRow.ofRow existing row

/-- The shared and ghost rows that the draft touches, merged, each with its number. -/
def stageFixed (store : Store τ) (draft : Draft τ) : List (Nat × StagedRow τ) :=
  pendingRows ((store.contents.zip draft.rows).drop store.layout.exclusive) store.layout.exclusive

/-- The merged rows that a commit writes. -/
def staged (store : Store τ) (draft : Draft τ) : List (StagedRow τ) :=
  store.stageExclusive draft ++ (store.stageFixed draft).map Prod.snd

end Store

end Subdomain

import Mathlib.Logic.Relation
import Subdomain.Proofs.Sparse.Merge

/-!
# The merge as a loop

A merge goes over its three rows in turns, each of which writes one cell.  This module follows the
turns: they end once all three rows are read, whatever the rows are, and what they wrote is the union
of the rows, in order and with the right values when the rows ascend.
-/

namespace Subdomain

namespace Cell

variable {τ : Type}

/-! ## Turns -/

/-- A merge on its way: what is left of the three rows, and the buffer so far. -/
structure Merging (τ : Type) where
  existing : List (Cell τ)
  slots : List (Cell τ)
  spare : List (Cell τ)
  buffer : List (Cell τ)

namespace Merging

/-- Write the next spilled cell if no other row offers less. -/
def takeSpare? (state : Merging τ) : Option (Merging τ) :=
  match state.spare with
  | [] => none
  | cell :: rest =>
    if cell.entry ≤ nextEntry state.slots ∧ cell.entry ≤ nextEntry state.existing then
      some ⟨skip cell.entry state.existing, skip cell.entry state.slots, rest,
        state.buffer ++ [cell]⟩
    else none

/-- Write the next slotted cell if the committed row offers no less. -/
def takeSlot? (state : Merging τ) : Option (Merging τ) :=
  match state.slots with
  | [] => none
  | cell :: rest =>
    if cell.entry ≤ nextEntry state.existing then
      some ⟨skip cell.entry state.existing, rest, state.spare, state.buffer ++ [cell]⟩
    else none

/-- Write the next committed cell. -/
def takeExisting? (state : Merging τ) : Option (Merging τ) :=
  match state.existing with
  | [] => none
  | cell :: rest => some ⟨rest, state.slots, state.spare, state.buffer ++ [cell]⟩

@[simp] theorem takeSpare?_cons (existing slots rest buffer : List (Cell τ)) (cell : Cell τ) :
    takeSpare? ⟨existing, slots, cell :: rest, buffer⟩ =
      if cell.entry ≤ nextEntry slots ∧ cell.entry ≤ nextEntry existing then
        some ⟨skip cell.entry existing, skip cell.entry slots, rest, buffer ++ [cell]⟩
      else none := rfl

@[simp] theorem takeSlot?_cons (existing rest spare buffer : List (Cell τ)) (cell : Cell τ) :
    takeSlot? ⟨existing, cell :: rest, spare, buffer⟩ =
      if cell.entry ≤ nextEntry existing then
        some ⟨skip cell.entry existing, rest, spare, buffer ++ [cell]⟩
      else none := rfl

/-- One turn of the loop, which tries the rows by precedence; nothing if no row can be taken from. -/
def turn? (state : Merging τ) : Option (Merging τ) :=
  (state.takeSpare?.or state.takeSlot?).or state.takeExisting?

/-- Some turns lead from one state to another. -/
def Turns : Merging τ → Merging τ → Prop :=
  Relation.ReflTransGen fun state next => state.turn? = some next

/-- The loop ends in a state. -/
def Ends (state final : Merging τ) : Prop := state.Turns final ∧ final.turn? = none

theorem takeSpare?_eq_none {existing slots spare buffer : List (Cell τ)} {entry : UInt64}
    (passed : ∀ other ∈ spare.head?, entry < other.entry)
    (least : nextEntry slots ≤ entry ∨ nextEntry existing ≤ entry) :
    takeSpare? ⟨existing, slots, spare, buffer⟩ = none := by
  cases spare with
  | nil => rfl
  | cons cell rest =>
      have above := passed cell rfl
      refine if_neg fun taken => ?_
      rcases least with least | least
      · exact UInt64.not_le.2 above (UInt64.le_trans taken.1 least)
      · exact UInt64.not_le.2 above (UInt64.le_trans taken.2 least)

theorem takeSlot?_eq_none {existing slots spare buffer : List (Cell τ)} {entry : UInt64}
    (passed : ∀ other ∈ slots.head?, entry < other.entry) (least : nextEntry existing ≤ entry) :
    takeSlot? ⟨existing, slots, spare, buffer⟩ = none := by
  cases slots with
  | nil => rfl
  | cons cell rest =>
      exact if_neg fun taken => UInt64.not_le.2 (passed cell rfl) (UInt64.le_trans taken least)

/-- The turns write what the merge gives, at the end of the buffer: each step of the merge is one
turn. -/
theorem turns_of_merged {existing slots spare merged : List (Cell τ)}
    (steps : Merged existing slots spare merged) (buffer : List (Cell τ)) :
    Turns ⟨existing, slots, spare, buffer⟩ ⟨[], [], [], buffer ++ merged⟩ := by
  induction steps generalizing buffer with
  | @spare existing slots spare merged cell leastSlot leastExisting rest ih =>
      have written := ih (buffer ++ [cell])
      rw [List.append_assoc] at written
      refine .head ?_ written
      simp [turn?, leastSlot, leastExisting]
  | @slots existing slots spare merged cell passedSpare leastExisting rest ih =>
      have written := ih (buffer ++ [cell])
      rw [List.append_assoc] at written
      refine .head ?_ written
      rw [turn?, takeSpare?_eq_none passedSpare (.inl (UInt64.le_refl _))]
      simp [leastExisting]
  | @existing existing slots spare merged cell passedSpare passedSlots rest ih =>
      have written := ih (buffer ++ [cell])
      rw [List.append_assoc] at written
      refine .head ?_ written
      rw [turn?, takeSpare?_eq_none passedSpare (.inr (UInt64.le_refl _)),
        takeSlot?_eq_none passedSlots (UInt64.le_refl _)]
      rfl
  | nil =>
      rw [List.append_nil]
      exact .refl

end Merging

/-! ## The union of the rows -/

/-- Some cell of a row has an entry. -/
def Has (row : List (Cell τ)) (entry : UInt64) : Prop := ∃ cell ∈ row, cell.entry = entry

theorem has_cons {head : Cell τ} {row : List (Cell τ)} {entry : UInt64} :
    Has (head :: row) entry ↔ head.entry = entry ∨ Has row entry := by
  simp [Has]

/-- A row that passes over an entry keeps every other. -/
theorem has_skip {row : List (Cell τ)} {entry other : UInt64} (apart : entry ≠ other) :
    Has (skip entry row) other ↔ Has row other := by
  have same : value? (skip entry row) other = value? row other := value?_skip apart
  have found : ∀ row : List (Cell τ), Has row other ↔ value? row other ≠ none := by
    intro row
    simp [Has, value?_eq_none_iff]
  rw [found, found, same]

/-- Whatever the rows are, an entry is written exactly if one of them has it: the cells passed over
have the entry of the cell just written. -/
theorem Merged.has_iff {existing slots spare merged : List (Cell τ)}
    (steps : Merged existing slots spare merged) (entry : UInt64) :
    Has merged entry ↔ Has existing entry ∨ Has slots entry ∨ Has spare entry := by
  induction steps with
  | @spare existing slots spare merged cell leastSlot leastExisting rest ih =>
      rw [has_cons, has_cons, ih]
      by_cases equal : cell.entry = entry
      · simp [equal]
      · simp only [has_skip equal, equal, false_or]
  | @slots existing slots spare merged cell passedSpare leastExisting rest ih =>
      rw [has_cons, has_cons, ih]
      by_cases equal : cell.entry = entry
      · simp [equal]
      · simp only [has_skip equal, equal, false_or]
  | existing passedSpare passedSlots rest ih =>
      rw [has_cons, has_cons, ih, or_assoc]
  | nil => simp [Has]

/-- A merge is a sorted union by precedence.  For any rows and any buffer, the loop ends with all three
rows read, and has only added cells at the end of the buffer: as many as it says, with every entry of
the rows and no other.  If the rows ascend, so do the added cells, and each entry has the value of the
spilled row if that has one, else of the slotted row, else of the committed row. -/
theorem mergeOnto_union (buffer existing slots spare : List (Cell τ)) :
    ∃ added,
      mergeOnto buffer existing slots spare = (buffer ++ added, added.length) ∧
      Merging.Ends ⟨existing, slots, spare, buffer⟩ ⟨[], [], [], buffer ++ added⟩ ∧
      (∀ entry, Has added entry ↔ Has existing entry ∨ Has slots entry ∨ Has spare entry) ∧
      (Ascending existing → Ascending slots → Ascending spare →
        Ascending added ∧
        ∀ entry, value? added entry =
          (value? spare entry).or ((value? slots entry).or (value? existing entry))) := by
  have steps := merged_merge existing slots spare
  refine ⟨merge existing slots spare, ?_, ⟨Merging.turns_of_merged steps buffer, rfl⟩,
    steps.has_iff, fun existingAscends slotsAscend spareAscends => ⟨?_, ?_⟩⟩
  · simp [mergeOnto]
  · exact steps.ascending existingAscends slotsAscend spareAscends
  · exact steps.value? slotsAscend spareAscends

/-- Three rows that share entries, the vacant entry among them. -/
theorem mergeOnto_union_overlapping :
    let existing : List (Cell Nat) := [⟨1, 10⟩, ⟨3, 30⟩, ⟨vacantEntry, 90⟩]
    let slots : List (Cell Nat) := [⟨0, 1⟩, ⟨3, 31⟩, ⟨vacantEntry, 91⟩]
    let spare : List (Cell Nat) := [⟨3, 32⟩, ⟨9, 92⟩]
    Ascending existing ∧ Ascending slots ∧ Ascending spare ∧
      ∃ added, mergeOnto [⟨7, 7⟩] existing slots spare = (⟨7, 7⟩ :: added, added.length) ∧
        Ascending added ∧ value? added 3 = some 32 ∧ value? added vacantEntry = some 91 ∧
        value? added 1 = some 10 ∧ value? added 7 = none := by
  intro existing slots spare
  have existingAscends : Ascending existing := by decide
  have slotsAscend : Ascending slots := by decide
  have spareAscends : Ascending spare := by decide
  obtain ⟨added, written, -, -, ascends⟩ := mergeOnto_union [⟨7, 7⟩] existing slots spare
  obtain ⟨ascending, values⟩ := ascends existingAscends slotsAscend spareAscends
  refine ⟨existingAscends, slotsAscend, spareAscends, added, written, ascending, ?_⟩
  exact ⟨values 3, values vacantEntry, values 1, values 7⟩

end Cell

end Subdomain

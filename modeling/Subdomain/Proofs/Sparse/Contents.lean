import Subdomain.Proofs.Sparse.Placement
import Subdomain.Proofs.Sparse.Row

/-!
# The map that a store shows

A store is read by row, by row and entry, as one list of cells, or as a list of the rows that are not
empty.  All four readings are of one finite map from rows and entries to values.
-/

namespace Subdomain

/-- A row and an entry in it. -/
abbrev Key := Nat × UInt64

/-- Cells with their rows in the order of their rows, and within a row of their entries. -/
def KeyOrder {τ : Type} (first second : Nat × Cell τ) : Prop :=
  first.1 < second.1 ∨ first.1 = second.1 ∧ first.2.entry < second.2.entry

namespace Store

variable {τ : Type}

/-- The cells of a row; a row outside the layout has none. -/
def cellsOf (store : Store τ) (number : Nat) : List (Cell τ) := (store.contents[number]?).getD []

/-- What a store is seen to contain, through every way of reading it: exactly the values of a map,
each row ascending, and no row outside the layout. -/
structure Shows (store : Store τ) (contents : Key → Option τ) : Prop where
  row : ∀ number < store.layout.numRows, ∃ cells, store.row number = .ok cells ∧
    Cell.Ascending cells ∧ ∀ cell, cell ∈ cells ↔ contents (number, cell.entry) = some cell.value
  outside : ∀ number, store.layout.numRows ≤ number →
    store.row number = .error (.rowOutOfBounds number store.layout.numRows) ∧
      ∀ entry, contents (number, entry) = none
  get? : ∀ number entry, store.get? number entry = contents (number, entry)
  entries : ∀ number cell,
    (number, cell) ∈ store.entries ↔ contents (number, cell.entry) = some cell.value
  entriesAscending : store.entries.Pairwise KeyOrder
  indices : ∀ number, number ∈ store.indices ↔ ∃ entry, contents (number, entry) ≠ none
  indicesAscending : store.indices.Pairwise (· < ·)

variable [Inhabited τ]

/-- The rows of a store follow the rule of their layout, ascend below the row width, and together are
a map.  Their descriptors have room for every count and every start. -/
structure Represents (store : Store τ) (contents : Key → Option τ) : Prop where
  holds : ∃ exclusive fixed, Holds store exclusive fixed
  ascending : ∀ cells ∈ store.contents, Cell.Ascending cells
  below : ∀ cells ∈ store.contents, ∀ cell ∈ cells, cell.entry.toNat < store.maxEntries
  value? : ∀ number entry, Cell.value? (store.cellsOf number) entry = contents (number, entry)
  narrow : store.maxEntries ≤ maxRowLength
  addressable : store.cells.length ≤ maxElements

variable {store : Store τ} {contents : Key → Option τ}

theorem Represents.length (represents : Represents store contents) :
    store.contents.length = store.layout.numRows := by
  obtain ⟨_, _, holds⟩ := represents.holds
  exact holds.length_contents

/-- A cell below the row width has content. -/
theorem Represents.isVacant_eq_false (represents : Represents store contents) {cell : Cell τ}
    (below : cell.entry.toNat < store.maxEntries) : cell.isVacant = false := by
  apply beq_false_of_ne
  intro vacant
  have narrow := represents.narrow
  have word : vacantEntry.toNat = maxWord := rfl
  rw [vacant] at below
  simp only [word, maxWord, maxRowLength] at below narrow
  omega

theorem Represents.ascending_cellsOf (represents : Represents store contents) (number : Nat) :
    Cell.Ascending (store.cellsOf number) := by
  rw [cellsOf]
  cases found : store.contents[number]? with
  | none => exact .nil
  | some cells => exact represents.ascending cells (List.mem_of_getElem? found)

theorem Represents.below_cellsOf (represents : Represents store contents) (number : Nat) :
    ∀ cell ∈ store.cellsOf number, cell.entry.toNat < store.maxEntries := by
  rw [cellsOf]
  cases found : store.contents[number]? with
  | none => simp
  | some cells => exact represents.below cells (List.mem_of_getElem? found)

theorem Represents.mem_cellsOf (represents : Represents store contents) (number : Nat)
    (cell : Cell τ) :
    cell ∈ store.cellsOf number ↔ contents (number, cell.entry) = some cell.value := by
  rw [← represents.value?,
    Cell.value?_eq_some_iff (represents.ascending_cellsOf number).distinct]

theorem Represents.cellsOf_eq_nil (represents : Represents store contents) {number : Nat}
    (outside : store.layout.numRows ≤ number) : store.cellsOf number = [] := by
  rw [cellsOf, List.getElem?_eq_none (represents.length ▸ outside)]
  rfl

omit [Inhabited τ] in
theorem mem_entries_iff (store : Store τ) (number : Nat) (cell : Cell τ) :
    (number, cell) ∈ store.entries ↔ cell ∈ store.cellsOf number := by
  simp only [entries, List.mem_flatMap, List.mem_map, Prod.exists, Prod.mk.injEq,
    List.mk_mem_zipIdx_iff_getElem?, cellsOf]
  constructor
  · rintro ⟨cells, _, found, _, member, rfl, rfl⟩
    simpa [found] using member
  · intro member
    cases found : store.contents[number]? with
    | none => simp [found] at member
    | some cells => exact ⟨cells, number, found, cell, by simpa [found] using member, rfl, rfl⟩

theorem pairwise_zipIdx {α : Type} (values : List α) (start : Nat) :
    (values.zipIdx start).Pairwise fun first second => first.2 < second.2 := by
  have numbers : ((values.zipIdx start).map Prod.snd).Pairwise (· < ·) := by
    rw [List.zipIdx_map_snd]
    exact List.pairwise_lt_range'
  exact List.pairwise_map.1 numbers

/-- The count in the extent of a row is the number of its cells. -/
theorem Holds.counts {exclusive fixed : List (List (Cell τ))} (holds : Holds store exclusive fixed) :
    store.extents.map Extent.count = store.contents.map List.length := by
  have packed : ∀ start counts, (Extent.consecutive start counts).map Extent.count = counts := by
    intro start counts
    induction counts generalizing start with
    | nil => rfl
    | cons count counts ih => simp [Extent.consecutive, ih]
  have fixedCounts : ∀ start width counts,
      (Extent.strided start width counts).map Extent.count = counts := by
    intro start width counts
    induction counts generalizing start with
    | nil => rfl
    | cons count counts ih => simp [Extent.strided, ih]
  rw [holds.extents_eq, holds.contents, List.map_append, List.map_append, packed, fixedCounts]

theorem Represents.mem_indices (represents : Represents store contents) (number : Nat) :
    number ∈ store.indices ↔ store.cellsOf number ≠ [] := by
  obtain ⟨_, _, holds⟩ := represents.holds
  have count : (store.extents[number]?).map Extent.count =
      (store.contents[number]?).map List.length := by
    rw [← List.getElem?_map, ← List.getElem?_map, holds.counts]
  simp only [indices, List.mem_map, List.mem_filter, Prod.exists, List.mk_mem_zipIdx_iff_getElem?,
    decide_eq_true_eq, exists_eq_right, cellsOf]
  cases found : store.contents[number]? with
  | none =>
      rw [found, Option.map_none, Option.map_eq_none_iff] at count
      simp [count]
  | some cells =>
      rw [found, Option.map_some, Option.map_eq_some_iff] at count
      obtain ⟨extent, located, same⟩ := count
      simp [located, same, List.length_pos_iff]

omit [Inhabited τ] in
theorem row_eq_ok {number : Nat} (inside : number < store.layout.numRows) :
    store.row number = .ok (store.cellsOf number) := by
  rw [Store.row, Layout.checkRow, if_pos inside]
  rfl

theorem Represents.shows (represents : Represents store contents) : Shows store contents where
  row := fun number inside => by
    exact ⟨store.cellsOf number, row_eq_ok inside, represents.ascending_cellsOf number,
      represents.mem_cellsOf number⟩
  outside := fun number outside => by
    refine ⟨?_, fun entry => ?_⟩
    · simp only [Store.row, Layout.checkRow, if_neg (Nat.not_lt.2 outside)]
      rfl
    · rw [← represents.value?, represents.cellsOf_eq_nil outside]
      rfl
  get? := fun number entry => by
    rw [← represents.value?, Store.get?, Store.row, Layout.checkRow]
    by_cases inside : number < store.layout.numRows
    · rw [if_pos inside]
      rfl
    · rw [if_neg inside, represents.cellsOf_eq_nil (Nat.not_lt.1 inside)]
      rfl
  entries := fun number cell => by
    rw [mem_entries_iff, represents.mem_cellsOf]
  entriesAscending := by
    refine List.pairwise_flatMap.2 ⟨?_, ?_⟩
    · rintro ⟨cells, number⟩ member
      have found : store.contents[number]? = some cells := List.mk_mem_zipIdx_iff_getElem?.1 member
      refine List.pairwise_map.2 ?_
      exact (represents.ascending cells (List.mem_of_getElem? found)).imp fun less => .inr ⟨rfl, less⟩
    · refine (pairwise_zipIdx store.contents 0).imp fun less first inFirst second inSecond => ?_
      obtain ⟨_, _, rfl⟩ := List.mem_map.1 inFirst
      obtain ⟨_, _, rfl⟩ := List.mem_map.1 inSecond
      exact .inl less
  indices := fun number => by
    rw [represents.mem_indices]
    constructor
    · intro some
      obtain ⟨cell, rest, equal⟩ := List.exists_cons_of_ne_nil some
      refine ⟨cell.entry, ?_⟩
      have value := (represents.mem_cellsOf number cell).1 (equal ▸ List.mem_cons_self)
      simp [value]
    · rintro ⟨entry, present⟩ nothing
      rw [← represents.value?, nothing] at present
      exact present rfl
  indicesAscending :=
    List.pairwise_map.2 ((pairwise_zipIdx store.extents 0).filter _)

end Store

end Subdomain

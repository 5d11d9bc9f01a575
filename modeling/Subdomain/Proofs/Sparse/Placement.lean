import Mathlib.Tactic.Ring
import Subdomain.Proofs.Outcome
import Subdomain.Sparse.Commit

/-!
# Rows and where they lie

A store is its rows together with the rule by which they are laid out: the exclusive rows back to back
and padded to the capacity of their region, then every shared and ghost row padded to the row width.
Padding is vacant throughout, so a store that follows the rule holds nothing but its rows.
-/

namespace Subdomain

namespace Extent

/-- Extents of the given lengths at a fixed distance from each other. -/
def strided (start width : Nat) : List Nat → List Extent
  | [] => []
  | count :: counts => ⟨start, count⟩ :: strided (start + width) width counts

@[simp] theorem length_consecutive (start : Nat) (counts : List Nat) :
    (consecutive start counts).length = counts.length := by
  induction counts generalizing start with
  | nil => rfl
  | cons count counts ih => simp [consecutive, ih]

@[simp] theorem length_strided (start width : Nat) (counts : List Nat) :
    (strided start width counts).length = counts.length := by
  induction counts generalizing start with
  | nil => rfl
  | cons count counts ih => simp [strided, ih]

theorem getElem?_strided (start width : Nat) (counts : List Nat) (position : Nat) :
    (strided start width counts)[position]? =
      counts[position]?.map fun count => ⟨start + position * width, count⟩ := by
  induction counts generalizing start position with
  | nil => rfl
  | cons count counts ih =>
      cases position with
      | zero => simp [strided]
      | succ position =>
          simp only [strided, List.getElem?_cons_succ, ih, Nat.succ_mul]
          congr 1
          funext count
          simp only [Extent.mk.injEq, and_true]
          omega

theorem set_strided (start width : Nat) (counts : List Nat) (position count : Nat) :
    (strided start width counts).set position ⟨start + position * width, count⟩ =
      strided start width (counts.set position count) := by
  induction counts generalizing start position with
  | nil => rfl
  | cons head counts ih =>
      cases position with
      | zero => simp [strided]
      | succ position =>
          have place : start + (position + 1) * width = start + width + position * width := by ring
          simp only [strided, List.set_cons_succ, place, ih]

theorem map_rebase_strided (oldStart newStart offset width : Nat) (counts : List Nat) :
    (strided (oldStart + offset) width counts).map
        (fun extent => { extent with start := extent.start - oldStart + newStart }) =
      strided (newStart + offset) width counts := by
  induction counts generalizing offset with
  | nil => rfl
  | cons count counts ih =>
      have head : oldStart + offset - oldStart + newStart = newStart + offset := by omega
      simp only [strided, List.map_cons, head, Nat.add_assoc, ih]

/-- A slice that begins after the front part of a buffer lies in the rest. -/
theorem slice_append {α : Type} (front rest : List α) (start count : Nat) :
    slice ⟨front.length + start, count⟩ (front ++ rest) = slice ⟨start, count⟩ rest := by
  simp only [slice, List.drop_length_add_append]

theorem slice_front {α : Type} (front rest : List α) :
    slice ⟨0, front.length⟩ (front ++ rest) = front := by
  simp [slice]

/-- Rows packed back to back are found again at consecutive extents. -/
theorem map_slice_consecutive {α : Type} (front : List α) (rows : List (List α)) (rest : List α) :
    (consecutive front.length (rows.map List.length)).map
      (fun extent => extent.slice (front ++ (rows.flatten ++ rest))) = rows := by
  induction rows generalizing front with
  | nil => rfl
  | cons row rows ih =>
      have step := ih (front ++ row)
      simp only [List.length_append, List.append_assoc] at step
      simp only [List.map_cons, consecutive, List.flatten_cons, List.append_assoc, step]
      rw [← Nat.add_zero front.length, slice_append, slice_front]

end Extent

/-! ## Padding and overwriting -/

section Padding

variable {τ : Type} [Inhabited τ]

/-- Some cells followed by vacant ones, up to a width. -/
def padded (width : Nat) (cells : List (Cell τ)) : List (Cell τ) :=
  cells ++ List.replicate (width - cells.length) Cell.vacant

theorem length_padded {width : Nat} {cells : List (Cell τ)} (fits : cells.length ≤ width) :
    (padded width cells).length = width := by
  simp only [padded, List.length_append, List.length_replicate]
  omega

theorem overwrite_append {α : Type} {front : List α} {offset : Nat} (wide : front.length = offset)
    (rest run : List α) (start : Nat) :
    overwrite (offset + start) run (front ++ rest) = front ++ overwrite start run rest := by
  subst wide
  simp only [overwrite, Nat.add_assoc, List.take_length_add_append, List.drop_length_add_append,
    List.append_assoc]

theorem overwrite_front {α : Type} {front rest run : List α} (within : run.length ≤ front.length) :
    overwrite 0 run (front ++ rest) = overwrite 0 run front ++ rest := by
  simp [overwrite, List.drop_append, Nat.sub_eq_zero_of_le within]

/-- Writing new cells over old ones, and vacant cells over what the old ones took up beyond them,
leaves the new cells padded. -/
theorem overwrite_padded {width : Nat} {old new : List (Cell τ)} (oldFits : old.length ≤ width)
    (newFits : new.length ≤ width) :
    overwrite 0 (new ++ List.replicate (old.length - new.length) Cell.vacant) (padded width old) =
      padded width new := by
  have covered : old.length ≤ new.length + (old.length - new.length) := by omega
  have rest : old.length - new.length + (width - old.length -
      (new.length + (old.length - new.length) - old.length)) = width - new.length := by omega
  simp only [overwrite, padded, List.take_zero, List.nil_append, Nat.zero_add, List.length_append,
    List.length_replicate, List.drop_append, List.drop_eq_nil_of_le covered, List.drop_replicate,
    List.append_assoc, List.replicate_append_replicate, rest]

/-- Writing inside one of several blocks of one width changes that block only. -/
theorem overwrite_flatten {α : Type} {width : Nat} {blocks : List (List α)} {position : Nat}
    {block run : List α} (wide : ∀ block ∈ blocks, block.length = width)
    (found : blocks[position]? = some block) (within : run.length ≤ width) :
    overwrite (position * width) run blocks.flatten =
      (blocks.set position (overwrite 0 run block)).flatten := by
  induction blocks generalizing position with
  | nil => simp at found
  | cons head rest ih =>
      have headWide := wide head List.mem_cons_self
      cases position with
      | zero =>
          simp only [List.getElem?_cons_zero, Option.some.injEq] at found
          subst found
          simp only [Nat.zero_mul, List.set_cons_zero, List.flatten_cons]
          exact overwrite_front (headWide ▸ within)
      | succ position =>
          have step := ih (fun other member => wide other (List.mem_cons_of_mem _ member))
            (by simpa using found)
          have place : (position + 1) * width = width + position * width := by ring
          simp only [List.set_cons_succ, List.flatten_cons, place, overwrite_append headWide, step]

/-- Padded rows are found again at strided extents. -/
theorem map_slice_strided (front : List (Cell τ)) {width : Nat} {rows : List (List (Cell τ))}
    (fits : ∀ row ∈ rows, row.length ≤ width) :
    (Extent.strided front.length width (rows.map List.length)).map
      (fun extent => extent.slice (front ++ (rows.map (padded width)).flatten)) = rows := by
  induction rows generalizing front with
  | nil => rfl
  | cons row rows ih =>
      have wide := length_padded (fits row List.mem_cons_self)
      have step := ih (front ++ padded width row)
        fun other member => fits other (List.mem_cons_of_mem _ member)
      simp only [List.length_append, wide, List.append_assoc] at step
      simp only [List.map_cons, Extent.strided, List.flatten_cons, step]
      rw [← Nat.add_zero front.length, Extent.slice_append, padded, List.append_assoc,
        Extent.slice_front]

end Padding

/-! ## Stores that follow the rule -/

namespace Store

variable {τ : Type} [Inhabited τ]

/-- The shared and ghost rows lie where they belong, behind an exclusive region that begins with
`packed` and is vacant from there on. -/
structure HoldsFixed (store : Store τ) (packed : List (Cell τ)) (fixed : List (List (Cell τ))) :
    Prop where
  count : fixed.length = store.layout.numFixedRows
  fits : ∀ row ∈ fixed, row.length ≤ store.maxEntries
  described : store.layout.exclusive ≤ store.extents.length
  extents : store.extents.drop store.layout.exclusive =
    Extent.strided store.exclusiveCapacity store.maxEntries (fixed.map List.length)
  cells : store.cells =
    padded store.exclusiveCapacity packed ++ (fixed.map (padded store.maxEntries)).flatten
  used : packed.length = store.exclusiveUsed
  roomy : store.exclusiveUsed ≤ store.exclusiveCapacity

/-- The store holds these exclusive rows and these shared and ghost rows, and nothing else. -/
structure Holds (store : Store τ) (exclusive fixed : List (List (Cell τ))) : Prop extends
    HoldsFixed store exclusive.flatten fixed where
  exclusiveCount : exclusive.length = store.layout.exclusive
  exclusiveExtents : store.extents.take store.layout.exclusive =
    Extent.consecutive 0 (exclusive.map List.length)

variable {store : Store τ} {packed : List (Cell τ)} {exclusive fixed : List (List (Cell τ))}

theorem HoldsFixed.length_padded (holds : HoldsFixed store packed fixed) :
    (padded store.exclusiveCapacity packed).length = store.exclusiveCapacity :=
  Subdomain.length_padded (holds.used ▸ holds.roomy)

/-- The buffer is the exclusive region followed by the room of every shared and ghost row. -/
theorem HoldsFixed.length_cells (holds : HoldsFixed store packed fixed) :
    store.cells.length =
      store.exclusiveCapacity + store.layout.numFixedRows * store.maxEntries := by
  have wide : ∀ rows : List (List (Cell τ)), (∀ row ∈ rows, row.length ≤ store.maxEntries) →
      (rows.map (padded store.maxEntries)).flatten.length = rows.length * store.maxEntries := by
    intro rows fits
    induction rows with
    | nil => simp
    | cons row rows ih =>
        have head := Subdomain.length_padded (fits row List.mem_cons_self)
        have rest := ih fun other member => fits other (List.mem_cons_of_mem _ member)
        rw [List.map_cons, List.flatten_cons, List.length_append, head, rest, List.length_cons,
          Nat.succ_mul, Nat.add_comm]
  rw [holds.cells, List.length_append, holds.length_padded, wide fixed holds.fits, holds.count]

theorem Holds.extents_eq (holds : Holds store exclusive fixed) :
    store.extents = Extent.consecutive 0 (exclusive.map List.length) ++
      Extent.strided store.exclusiveCapacity store.maxEntries (fixed.map List.length) := by
  rw [← holds.exclusiveExtents, ← holds.extents, List.take_append_drop]

/-- The rows that a store holds are what it is seen to contain. -/
theorem Holds.contents (holds : Holds store exclusive fixed) :
    store.contents = exclusive ++ fixed := by
  have wide := holds.length_padded
  rw [Store.contents, holds.extents_eq, List.map_append, holds.cells]
  congr 1
  · rw [padded, List.append_assoc]
    exact Extent.map_slice_consecutive [] exclusive _
  · have found := map_slice_strided (padded store.exclusiveCapacity exclusive.flatten) holds.fits
    rwa [wide] at found

theorem Holds.length_contents (holds : Holds store exclusive fixed) :
    store.contents.length = store.layout.numRows := by
  rw [holds.contents, List.length_append, holds.exclusiveCount, holds.count]
  simp only [Layout.numFixedRows, Layout.numRows]
  omega

theorem strided_replicate_zero (start width count : Nat) :
    Extent.strided start width (List.replicate count 0) =
      (List.range count).map fun position => ⟨start + position * width, 0⟩ := by
  refine List.ext_getElem? fun position => ?_
  rw [Extent.getElem?_strided, List.getElem?_map, List.getElem?_replicate]
  by_cases inside : position < count
  · simp [inside]
  · simp [inside]

omit [Inhabited τ] in
theorem consecutive_replicate_zero (start count : Nat) :
    Extent.consecutive start (List.replicate count 0) = List.replicate count ⟨start, 0⟩ := by
  induction count with
  | zero => rfl
  | succ count ih => simp [List.replicate_succ, Extent.consecutive, ih]

theorem flatten_replicate_vacant (count width : Nat) :
    ((List.replicate count []).map (padded (τ := τ) width)).flatten =
      List.replicate (count * width) Cell.vacant := by
  simp [padded]

omit [Inhabited τ] in
theorem allocate_eq_ok {memory : Memory} {length : Nat} {fill : Cell τ} {cells : List (Cell τ)}
    (allocated : memory.allocate length fill = .ok cells) :
    cells = List.replicate length fill ∧ length ≤ maxElements := by
  unfold Memory.allocate at allocated
  split at allocated
  next granted =>
    cases allocated
    exact ⟨rfl, memory.bounded length granted⟩
  · cases allocated

/-- The row width and the reserve that a store can be made with. -/
theorem widths_of_check {numSlots maxEntries reserveChunk : Nat}
    (accepted : SparseConfig.check { numSlots, maxEntries, reserveChunk } = .ok ()) :
    0 < numSlots ∧ 0 < reserveChunk ∧ 0 < maxEntries ∧ maxEntries ≤ maxRowLength := by
  simp only [SparseConfig.check] at accepted
  split at accepted
  · cases accepted
  split at accepted
  · cases accepted
  split at accepted
  · cases accepted
  · omega

/-- What a new store is. -/
structure Created (layout : Layout) (maxEntries reserveChunk : Nat) (store : Store τ) : Prop where
  holds : Holds store (List.replicate layout.exclusive []) (List.replicate layout.numFixedRows [])
  sameLayout : store.layout = layout
  sameWidth : store.maxEntries = maxEntries
  sameChunk : store.reserveChunk = reserveChunk
  capacity : store.exclusiveCapacity = reserveChunk
  reallocations : store.reallocations = 0
  narrow : maxEntries ≤ maxRowLength
  addressable : store.cells.length ≤ maxElements

theorem create_created {memory : Memory} {layout : Layout} {maxEntries reserveChunk : Nat}
    (done : Store.create memory layout maxEntries reserveChunk = .ok store) :
    Created layout maxEntries reserveChunk store := by
  unfold Store.create at done
  obtain ⟨⟨⟩, accepted, done⟩ := bind_eq_ok.1 done
  obtain ⟨_, done⟩ := refuse_eq_ok.1 done
  obtain ⟨cells, allocated, done⟩ := bind_eq_ok.1 done
  obtain ⟨_, done⟩ := refuse_eq_ok.1 done
  obtain ⟨blank, short⟩ := allocate_eq_ok allocated
  have widths := widths_of_check accepted
  cases done
  refine ⟨⟨⟨?_, ?_, ?_, ?_, ?_, ?_, ?_⟩, ?_, ?_⟩, rfl, rfl, rfl, rfl, rfl, widths.2.2.2, ?_⟩
  · simp
  · simp
  · simp
  · simp [fixedExtents, strided_replicate_zero]
  · simp only [blank, flatten_replicate_vacant, padded]
    simp [Nat.add_comm]
  · simp
  · simp
  · simp
  · simp [consecutive_replicate_zero]
  · simpa [blank] using short

end Store

end Subdomain

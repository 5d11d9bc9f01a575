import Subdomain.Config
import Subdomain.Sparse.Cell
import Subdomain.Sparse.Layout

/-!
# Committed storage

All rows of a field in one buffer of cells, with one extent per row:

    [ exclusive rows, packed | reserve ][ shared rows | ghost rows ]
      0 ..................... capacity   capacity + k * maxEntries

Exclusive rows lie back to back from 0 and may grow into the reserve. Shared and ghost rows have a
fixed start and room for a full row each.
-/

namespace Subdomain

/-- Where a row lies in the buffer. -/
structure Extent where
  start : Nat := 0
  count : Nat := 0
  deriving DecidableEq, Repr

namespace Extent

/-- The first position after the row. -/
def stop (extent : Extent) : Nat := extent.start + extent.count

/-- The extent packed into one word, as the tables of a buffer hold it. -/
def pack (extent : Extent) : Offset 16 := .pack (.ofNat extent.start) (.ofNat extent.count)

/-- The extent in words. -/
def describe (extent : Extent) : String := s!"Offset({extent.start}+{extent.count})"

/-- The elements of a buffer that an extent covers. -/
def slice {α : Type} (extent : Extent) (buffer : List α) : List α :=
  (buffer.drop extent.start).take extent.count

/-- Extents of the given lengths, each starting where the one before ends. -/
def consecutive (start : Nat) : List Nat → List Extent
  | [] => []
  | count :: counts => ⟨start, count⟩ :: consecutive (start + count) counts

end Extent

/-- The committed rows of a field. -/
structure Store (τ : Type) where
  layout : Layout
  /-- Row width: entries lie below it, and shared and ghost rows have this capacity. -/
  maxEntries : Nat
  /-- Spare cells added whenever the exclusive region grows. -/
  reserveChunk : Nat
  /-- One extent for each row of the layout. -/
  extents : List Extent
  /-- The buffer. -/
  cells : List (Cell τ)
  /-- Cells of the exclusive region. -/
  exclusiveCapacity : Nat
  /-- Cells of the exclusive region that its rows take up. -/
  exclusiveUsed : Nat
  /-- How often the exclusive region has grown. -/
  reallocations : Nat
  deriving DecidableEq

namespace Store

variable {τ : Type}

/-- Where the shared and ghost rows start when the exclusive region has a given capacity. -/
def fixedExtents (layout : Layout) (maxEntries capacity : Nat) : List Extent :=
  (List.range layout.numFixedRows).map fun position => ⟨capacity + position * maxEntries, 0⟩

/-- An empty store, if the row width and the reserve are acceptable and the memory grants the
reserve and the room of the shared and ghost rows. -/
def create [Inhabited τ] (memory : Memory) (layout : Layout) (maxEntries reserveChunk : Nat) :
    Except Error (Store τ) := do
  SparseConfig.check { numSlots := 1, maxEntries, reserveChunk }
  let length := layout.numFixedRows * maxEntries + reserveChunk
  if maxWord < length then throw (.allocationFailed maxWord)
  let cells ← memory.allocate length Cell.vacant
  if maxAllocationBytes < layout.numRows * 8 then throw (.defect .lengthOverflow)
  return {
    layout, maxEntries, reserveChunk, cells
    extents := List.replicate layout.exclusive {} ++ fixedExtents layout maxEntries reserveChunk
    exclusiveCapacity := reserveChunk
    exclusiveUsed := 0
    reallocations := 0 }

/-- An empty store with the configured row width and reserve. -/
def ofConfig [Inhabited τ] (memory : Memory) (layout : Layout) (config : SparseConfig) :
    Except Error (Store τ) :=
  create memory layout config.maxEntries config.reserveChunk

/-- The committed cells of every row. -/
def contents (store : Store τ) : List (List (Cell τ)) :=
  store.extents.map fun extent => extent.slice store.cells

/-- The committed cells of a row, in ascending order of their entries. -/
def row (store : Store τ) (row : Nat) : Except Error (List (Cell τ)) := do
  store.layout.checkRow row
  return (store.contents[row]?).getD []

/-- The committed value at an entry of a row. -/
def get? (store : Store τ) (row : Nat) (entry : UInt64) : Option τ :=
  (store.row row).toOption.bind fun cells => Cell.value? cells entry

/-- Every committed cell with its row, in row order. -/
def entries (store : Store τ) : List (Nat × Cell τ) :=
  store.contents.zipIdx.flatMap fun (cells, row) => cells.map (row, ·)

/-- The rows with a committed cell, in ascending order. -/
def indices (store : Store τ) : List Nat :=
  (store.extents.zipIdx.filter fun (extent, _) => 0 < extent.count).map Prod.snd

/-- Cells of the exclusive region that are free. -/
def exclusiveReserve (store : Store τ) : Nat := store.exclusiveCapacity - store.exclusiveUsed

/-- The positions of a region in the buffer, unused room included. -/
def regionInterval (store : Store τ) : Region → Interval
  | .exclusive => ⟨0, store.exclusiveCapacity⟩
  | .shared =>
      ⟨store.exclusiveCapacity, store.exclusiveCapacity + store.layout.shared * store.maxEntries⟩
  | .ghost =>
      ⟨store.exclusiveCapacity + store.layout.shared * store.maxEntries, store.cells.length⟩

/-- The cells of a region, unused room included. -/
def region (store : Store τ) (region : Region) : List (Cell τ) :=
  let interval := store.regionInterval region
  (store.cells.drop interval.start).take (interval.stop - interval.start)

/-- Check one row, given where the row before it ends: an exclusive row starts there, another at its
fixed place with no more cells than fit; the row lies in the buffer and ascends. Gives where the
row ends. -/
def checkInvariantsOf (store : Store τ) (expected row : Nat) (extent : Extent) :
    Except Error Nat := do
  if row < store.layout.exclusive then
    if extent.start ≠ expected then
      throw (.invariantViolation
        s!"exclusive row {row} starts at {extent.start} instead of {expected}")
  else
    let fixed := store.exclusiveCapacity + (row - store.layout.exclusive) * store.maxEntries
    if extent.start ≠ fixed ∨ store.maxEntries < extent.count then
      throw (.invariantViolation s!"row {row} descriptor {extent.describe} outside its fixed slot")
  if store.cells.length < extent.stop then
    throw (.invariantViolation s!"row {row} {extent.describe} past end of buffer")
  let cells := extent.slice store.cells
  if ¬ Cell.Ascending cells ∨ cells.any (·.entry == vacantEntry) then
    throw (.invariantViolation s!"row {row} not strictly sorted")
  return if row < store.layout.exclusive then extent.stop else expected

/-- Check every row in turn, then that the exclusive rows take up what is recorded and fit. -/
def checkInvariants (store : Store τ) : Except Error Unit := do
  let used ← store.extents.zipIdx.foldlM
    (fun expected (extent, row) => store.checkInvariantsOf expected row extent) 0
  if used ≠ store.exclusiveUsed ∨ store.exclusiveCapacity < store.exclusiveUsed then
    let recorded := s!"{store.exclusiveUsed} of {store.exclusiveCapacity}"
    throw (.invariantViolation s!"exclusive region uses {used} entries, recorded {recorded}")

end Store

end Subdomain

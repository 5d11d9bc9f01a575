import Subdomain.Sparse.Scratch

/-!
# Commits

A commit merges a draft into a store. Every row is merged and every buffer allocated before the
store changes, so a commit that fails leaves no trace. Exclusive rows are packed anew each time; of
the shared and ghost rows only those that the draft touches are written. When the draft's exclusive
insertions exceed the reserve, the exclusive region grows once, with a fresh reserve.
-/

namespace Subdomain

/-- What one commit did. -/
structure CommitStats where
  /-- Rows that were merged. -/
  rowsMerged : Nat
  /-- Cells removed by erasures. -/
  erased : Nat
  /-- Whether the exclusive region grew. -/
  reallocated : Bool
  deriving DecidableEq, Repr

namespace Store

variable {τ : Type} [Inhabited τ]

/-- The store with a larger exclusive region; the shared and ghost rows are carried over. -/
def grow (memory : Memory) (store : Store τ) (capacity : Nat) : Except Error (Store τ) := do
  let fixed := store.cells.drop store.exclusiveCapacity
  let length := capacity + fixed.length
  if maxWord < length then throw (.allocationFailed maxWord)
  let cells ← memory.allocate length Cell.vacant
  return { store with
    cells := overwrite capacity fixed cells
    extents := store.extents.take store.layout.exclusive ++
      (store.extents.drop store.layout.exclusive).map fun extent =>
        { extent with start := extent.start - store.exclusiveCapacity + capacity }
    exclusiveCapacity := capacity
    reallocations := store.reallocations + 1 }

/-- Replace the exclusive rows by others, back to back; cells that the old rows took up and the new do
not become vacant. -/
def installExclusive (store : Store τ) (packed : List (Cell τ)) (extents : List Extent) : Store τ :=
  { store with
    cells := overwrite 0
      (packed ++ List.replicate (store.exclusiveUsed - packed.length) Cell.vacant) store.cells
    extents := extents ++ store.extents.drop store.layout.exclusive
    exclusiveUsed := packed.length }

/-- Replace a shared or ghost row; cells that the old row took up and the new does not become
vacant. -/
def installFixed (store : Store τ) (row : Nat) (cells : List (Cell τ)) : Store τ :=
  let extent := (store.extents[row]?).getD {}
  { store with
    cells := overwrite extent.start
      (cells ++ List.replicate (extent.count - cells.length) Cell.vacant) store.cells
    extents := store.extents.set row { extent with count := cells.length } }

/-- Replace the exclusive rows, then the shared and ghost rows to be written, one by one. -/
def install (store : Store τ) (swept : Scratch τ) : Store τ :=
  swept.pending.foldl (fun store (number, row) => store.installFixed number row)
    (store.installExclusive swept.cells swept.extents)

/-- The merged rows of a draft, erasures applied, and how many entries these removed. The working space
comes from `scratch`; the store is only read. -/
def stage (scratch : Memory) (store : Store τ) (draft : Draft τ) :
    Except Error (Scratch τ × Nat) := do
  if draft.layout ≠ store.layout then
    throw (.layoutMismatch draft.layout.counts store.layout.counts)
  if draft.maxEntries ≠ store.maxEntries then
    throw (.invalidConfig <| s!"mutator row width {draft.maxEntries} does not match " ++
      s!"target row width {store.maxEntries}")
  let wanted := store.exclusiveUsed + draft.exclusiveInsertions
  if ¬ scratch.grants wanted then throw (.allocationFailed wanted)
  let merged ← Scratch.ofRows store draft
  let (swept, erased) := merged.erase store.layout.exclusive draft.erasures
  if let some (number, row) := swept.pending.find? fun (_, row) =>
      decide (store.maxEntries < row.length) then
    throw (.rowCapacityExceeded number row.length store.maxEntries)
  return (swept, erased)

/-- Whether the exclusive region has to grow. -/
def growsFor (store : Store τ) (draft : Draft τ) (swept : Scratch τ) : Bool :=
  decide (store.exclusiveReserve < draft.exclusiveInsertions) ||
    decide (store.exclusiveCapacity < swept.cells.length)

/-- The capacity that the exclusive region grows to. -/
def grownCapacity (store : Store τ) (draft : Draft τ) (swept : Scratch τ) : Nat :=
  max (store.exclusiveUsed + draft.exclusiveInsertions) swept.cells.length + store.reserveChunk

/-- The store itself, or one with a larger exclusive region if it has to grow. -/
def enlarge (memory : Memory) (store : Store τ) (draft : Draft τ) (swept : Scratch τ) :
    Except Error (Store τ) :=
  if store.growsFor draft swept then store.grow memory (store.grownCapacity draft swept)
  else .ok store

/-- What a commit reports. -/
def statsOf (store : Store τ) (draft : Draft τ) (swept : Scratch τ) (erased : Nat) :
    CommitStats where
  rowsMerged := store.layout.exclusive + swept.pending.length
  erased
  reallocated := store.growsFor draft swept

/-- Merge a draft into a store. The buffer comes from `memory`, the working space from `scratch`. -/
def commit (memory scratch : Memory) (store : Store τ) (draft : Draft τ) :
    Except Error (Store τ × CommitStats) := do
  let (swept, erased) ← store.stage scratch draft
  let target ← store.enlarge memory draft swept
  return (target.install swept, store.statsOf draft swept erased)

end Store

end Subdomain

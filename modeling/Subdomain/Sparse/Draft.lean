import Subdomain.Config
import Subdomain.Sparse.BlockTable
import Subdomain.Sparse.Cell
import Subdomain.Sparse.Layout

/-!
# Drafts

A draft collects the writes and erasures of one epoch before they are committed. Each row has a few
sorted slots; once these are full, further new entries spill over into a list in the order of their
arrival. An erasure is only noted: the value stays where it is until the commit.
-/

namespace Subdomain

/-- The pending changes of one row. -/
structure DraftRow (τ : Type) where
  /-- The first entries written, in ascending order. -/
  slots : List (Cell τ) := []
  /-- How many slots are in use, counted in 16 bits. -/
  used : Nat := slots.length
  /-- The entries written once the slots were full, in order of arrival. -/
  spare : List (Cell τ) := []
  /-- The entries to be removed at commit. -/
  erased : SortedSet UInt64 := ∅
  deriving DecidableEq

namespace DraftRow

variable {τ : Type}

/-- Every cell held, pending erasure or not. -/
def cells (row : DraftRow τ) : List (Cell τ) := row.slots ++ row.spare

/-- Whether anything was written. -/
def isTouched (row : DraftRow τ) : Bool := !row.cells.isEmpty

/-- Whether an entry was written and not erased since. -/
def contains (row : DraftRow τ) (entry : UInt64) : Bool :=
  decide (entry ∉ row.erased) && row.cells.any (·.entry == entry)

/-- The entries written and not erased since, in ascending order. -/
def entries (row : DraftRow τ) : List UInt64 :=
  (Cell.sort (row.cells.filter fun cell => decide (cell.entry ∉ row.erased))).map Cell.entry

/-- Note that an entry is to be removed at commit. -/
def erase (row : DraftRow τ) (entry : UInt64) : DraftRow τ :=
  { row with erased := row.erased.insert entry }

variable [Inhabited τ]

/-- Change the value at an entry, starting from the default if the row does not hold it, and cancel
a pending erasure. Gives the new value, the new row and whether the row holds a cell more. -/
def upsert (numSlots : Nat) (entry : UInt64) (change : τ → τ) (row : DraftRow τ) :
    Except Error (τ × DraftRow τ × Bool) :=
  let row := { row with erased := row.erased.filter (· != entry) }
  let fresh : Cell τ := ⟨entry, change default⟩
  match Cell.modifyAscending? entry change row.slots with
  | some (value, slots) => .ok (value, { row with slots }, false)
  | none =>
    if row.used < numSlots then
      if row.used < maxRowLength then
        .ok (fresh.value,
          { row with slots := Cell.place fresh row.slots, used := row.used + 1 }, true)
      else .error (.defect .slotCountOverflow)
    else
      match Cell.modify? entry change row.spare with
      | some (value, spare) => .ok (value, { row with spare }, false)
      | none => .ok (fresh.value, { row with spare := row.spare ++ [fresh] }, true)

end DraftRow

/-- The pending changes of one epoch. -/
structure Draft (τ : Type) where
  layout : Layout
  /-- Slots per row. -/
  numSlots : Nat
  /-- Row width: entries lie below it. -/
  maxEntries : Nat
  /-- One row of changes for each row of the layout. -/
  rows : List (DraftRow τ)
  /-- Entries written to exclusive rows: a bound on the growth of the exclusive region at commit. -/
  exclusiveInsertions : Nat
  deriving DecidableEq

namespace Draft

variable {τ : Type}

/-- A draft in which nothing is pending. -/
def empty (layout : Layout) (numSlots maxEntries : Nat) : Draft τ where
  layout
  numSlots
  maxEntries
  rows := List.replicate layout.numRows {}
  exclusiveInsertions := 0

/-- An empty draft, if there is at least one slot and the memory grants the slots of all rows. -/
def create (memory : Memory) (layout : Layout) (numSlots maxEntries : Nat) :
    Except Error (Draft τ) := do
  if numSlots = 0 then throw (.invalidConfig "num_slots must be positive")
  BlockTable.check memory layout.numRows numSlots
  return empty layout numSlots maxEntries

/-- An empty draft with the configured slots and row width. -/
def ofConfig (memory : Memory) (layout : Layout) (config : SparseConfig) :
    Except Error (Draft τ) :=
  create memory layout config.numSlots config.maxEntries

/-- Refuse a row outside the layout, then an entry outside the row. -/
def check (draft : Draft τ) (row : Nat) (entry : UInt64) : Except Error Unit := do
  draft.layout.checkRow row
  if draft.maxEntries ≤ entry.toNat then
    throw (.entryOutOfBounds entry draft.maxEntries)

/-- The changes of a row; a row outside the layout has none. -/
def row (draft : Draft τ) (row : Nat) : DraftRow τ := (draft.rows[row]?).getD {}

/-- Replace the changes of a row, and count a cell that was added to an exclusive row. -/
def record (draft : Draft τ) (row : Nat) (changed : DraftRow τ) (added : Bool) : Draft τ :=
  { draft with
    rows := draft.rows.set row changed
    exclusiveInsertions :=
      if added && decide (row < draft.layout.exclusive) then draft.exclusiveInsertions + 1
      else draft.exclusiveInsertions }

/-- Change the value at an entry, starting from the default if the draft does not hold it, and
cancel a pending erasure. Gives the new value and the new draft. -/
def upsert [Inhabited τ] (draft : Draft τ) (row : Nat) (entry : UInt64) (change : τ → τ) :
    Except Error (τ × Draft τ) := do
  draft.check row entry
  let (value, changed, added) ← (draft.row row).upsert draft.numSlots entry change
  return (value, draft.record row changed added)

/-- Write a value. -/
def set [Inhabited τ] (draft : Draft τ) (row : Nat) (entry : UInt64) (value : τ) :
    Except Error (Draft τ) := do
  return (← draft.upsert row entry fun _ => value).2

/-- Note that an entry is to be removed at commit, whether or not it exists. -/
def erase (draft : Draft τ) (row : Nat) (entry : UInt64) : Except Error (Draft τ) := do
  draft.check row entry
  return { draft with rows := draft.rows.set row ((draft.row row).erase entry) }

/-- Whether an entry was written and not erased since. -/
def contains (draft : Draft τ) (row : Nat) (entry : UInt64) : Bool :=
  (draft.row row).contains entry

/-- The pending entries of a row in ascending order. -/
def entriesOf (draft : Draft τ) (row : Nat) : Except Error (List UInt64) := do
  draft.layout.checkRow row
  return (draft.row row).entries

/-- Every pending row and entry, in ascending order. -/
def entries (draft : Draft τ) : List (Nat × UInt64) :=
  draft.rows.zipIdx.flatMap fun (row, number) => row.entries.map (number, ·)

/-- The rows with a pending entry, in ascending order. -/
def indices (draft : Draft τ) : List Nat :=
  (draft.rows.zipIdx.filter fun (row, _) => !row.entries.isEmpty).map Prod.snd

/-- The rows in which an entry is pending, in ascending order. -/
def indicesWith (draft : Draft τ) (entry : UInt64) : List Nat :=
  (draft.rows.zipIdx.filter fun (row, _) => row.contains entry).map Prod.snd

/-- Erasures noted and not cancelled. -/
def pendingErasures (draft : Draft τ) : Nat :=
  (draft.rows.flatMap fun row => row.erased.toList).length

/-- Check one row: no more slots in use than there are slots, slots ascending, and nothing spilled
over before the slots were full. -/
def checkInvariantsOf (draft : Draft τ) (row : DraftRow τ) (number : Nat) : Except Error Unit :=
  let used := row.used
  if draft.numSlots < used then
    .error (.invariantViolation s!"row {number} uses {used} of {draft.numSlots} slots")
  else if ¬ Cell.Ascending row.slots then
    .error (.invariantViolation s!"row {number} slots not strictly sorted")
  else if ¬ row.spare.isEmpty ∧ used < draft.numSlots then
    .error (.invariantViolation s!"row {number} spilled before its slots filled")
  else .ok ()

/-- Check every row in turn. -/
def checkInvariants (draft : Draft τ) : Except Error Unit :=
  draft.rows.zipIdx.forM fun (row, number) => draft.checkInvariantsOf row number

end Draft

end Subdomain

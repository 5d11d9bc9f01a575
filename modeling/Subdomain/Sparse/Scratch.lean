import Subdomain.Sparse.Draft
import Subdomain.Sparse.Merge
import Subdomain.Sparse.Store

/-!
# Working space of a commit

A commit merges the exclusive rows into one buffer, back to back, and every shared or ghost row that
the draft touches into a buffer of its own. Erasures are looked up in the merged rows, then the cells
found are marked, and last the marked cells are taken out. The buffer of the exclusive rows is
compacted in place, in one pass that moves the cells that stay to the front.
-/

namespace Subdomain

/-- Rows merged and not yet installed. -/
structure Scratch (τ : Type) where
  /-- The exclusive rows, back to back. -/
  cells : List (Cell τ) := []
  /-- Where each exclusive row lies. -/
  extents : List Extent := []
  /-- The shared and ghost rows to be written, each with its number, in ascending order. -/
  pending : List (Nat × List (Cell τ)) := []

namespace Draft

variable {τ : Type}

/-- The erasures noted and not cancelled, in ascending order of their rows and entries. -/
def erasures (draft : Draft τ) : List (Nat × UInt64) :=
  draft.rows.zipIdx.flatMap fun (row, number) => row.erased.toList.map (number, ·)

end Draft

namespace DraftRow

/-- Whether a commit has to write a shared or ghost row. -/
def isPending {τ : Type} (row : DraftRow τ) : Bool := row.isTouched || !row.erased.isEmpty

end DraftRow

namespace Scratch

variable {τ : Type}

/-! ## Merging -/

/-- Merge the next exclusive row onto the end of the buffer. -/
def mergeRow (scratch : Scratch τ) (existing : List (Cell τ)) (row : DraftRow τ) :
    Except Error (Scratch τ) :=
  let (cells, count) := Cell.mergeOnto scratch.cells existing row.slots (Cell.sort row.spare)
  if maxRowLength < count then .error (.offsetCountOverflow count 16)
  else .ok { scratch with
    cells, extents := scratch.extents ++ [⟨scratch.cells.length, count⟩] }

/-- Merge the shared and ghost rows that have to be written. -/
def mergePending (store : Store τ) (draft : Draft τ) : List (Nat × List (Cell τ)) :=
  ((store.contents.zip draft.rows).zipIdx.drop store.layout.exclusive).filterMap
    fun ((existing, row), number) =>
      if row.isPending then
        some (number, (Cell.mergeOnto [] existing row.slots (Cell.sort row.spare)).1)
      else none

/-- Merge the rows of a store with those of a draft. -/
def ofRows (store : Store τ) (draft : Draft τ) : Except Error (Scratch τ) := do
  let rows := (store.contents.zip draft.rows).take store.layout.exclusive
  let exclusive ← rows.foldlM (fun scratch (existing, row) => mergeRow scratch existing row) {}
  return { exclusive with pending := mergePending store draft }

/-! ## Erasing -/

/-- The position in the buffer of an entry of an exclusive row. -/
def locate? (scratch : Scratch τ) (row : Nat) (entry : UInt64) : Option Nat := do
  let extent ← scratch.extents[row]?
  let position ← (Cell.search (extent.slice scratch.cells) entry).position?
  return extent.start + position

/-- Which of the pending rows a row is, and the position of an entry in it. -/
def locatePending? (scratch : Scratch τ) (row : Nat) (entry : UInt64) : Option (Nat × Nat) := do
  let index ← scratch.pending.findIdx? (·.1 == row)
  let (_, cells) ← scratch.pending[index]?
  let position ← (Cell.search cells entry).position?
  return (index, position)

/-- Mark the cells at positions of the buffer. -/
def mark (cells : List (Cell τ)) (positions : List Nat) : List (Cell τ) :=
  positions.foldl (fun cells position => cells.modify position Cell.vacate) cells

/-- Mark cells of pending rows. -/
def markPending (pending : List (Nat × List (Cell τ))) (marks : List (Nat × Nat)) :
    List (Nat × List (Cell τ)) :=
  marks.foldl (fun pending (index, position) =>
    pending.modify index (Prod.map id fun cells => cells.modify position Cell.vacate)) pending

/-- Move the cells at some positions, those that are marked apart, to where the write cursor is. Gives
the buffer and the cursor. -/
def pack (cells : List (Cell τ)) (write : Nat) : List Nat → List (Cell τ) × Nat
  | [] => (cells, write)
  | position :: positions =>
    if cells[position]?.any Cell.isVacant then pack cells write positions
    else pack (swapAt cells write position) (write + 1) positions

/-- Pack a row behind those packed before it. The state is the buffer, the extents of the packed rows and
the write cursor. -/
def packRow (state : List (Cell τ) × List Extent × Nat) (extent : Extent) :
    List (Cell τ) × List Extent × Nat :=
  let (cells, extents, start) := state
  let (cells, stop) := pack cells start (List.range' extent.start extent.count)
  (cells, extents ++ [⟨start, stop - start⟩], stop)

/-- Close the gaps in the buffer, row by row, and cut off what is left behind. -/
def compact (scratch : Scratch τ) : Scratch τ :=
  let (cells, extents, stop) := scratch.extents.foldl packRow (scratch.cells, [], 0)
  { scratch with cells := cells.take stop, extents }

/-- Take the erased entries out of the merged rows. Gives how many there were of them. -/
def erase (scratch : Scratch τ) (exclusive : Nat) (erasures : List (Nat × UInt64)) :
    Scratch τ × Nat :=
  let positions := (erasures.filter fun (row, _) => decide (row < exclusive)).filterMap
    fun (row, entry) => scratch.locate? row entry
  let marks := (erasures.filter fun (row, _) => decide (exclusive ≤ row)).filterMap
    fun (row, entry) => scratch.locatePending? row entry
  let marked := { scratch with
    cells := mark scratch.cells positions, pending := markPending scratch.pending marks }
  let compacted := if positions.isEmpty then marked else marked.compact
  let swept := if marks.isEmpty then compacted else { compacted with
    pending := compacted.pending.map (Prod.map id Cell.filled) }
  (swept, positions.length + marks.length)

end Scratch

end Subdomain

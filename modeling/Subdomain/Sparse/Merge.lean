import Subdomain.Sparse.Cell

/-!
# Merging rows

Three rows become one: cells that spilled over win over slotted cells, and these win over committed
ones. The merge walks the three rows once; it is defined for any rows, ascending or not.
-/

namespace Subdomain

namespace Cell

variable {τ : Type}

/-- The entry that a row offers next; an exhausted row offers the vacant entry, which no other
exceeds. -/
def nextEntry (row : List (Cell τ)) : UInt64 := (row.head?.map Cell.entry).getD vacantEntry

/-- Pass over the leading cells with an entry. -/
def skip (entry : UInt64) (row : List (Cell τ)) : List (Cell τ) :=
  row.dropWhile (·.entry == entry)

theorem length_skip_le (entry : UInt64) (row : List (Cell τ)) :
    (skip entry row).length ≤ row.length :=
  (List.dropWhile_sublist _).length_le

/-- Merge three rows. Of the cells offered next, the one with the least entry is taken, from `spare`
before `slots` and from `slots` before `existing` on a tie; the rows of lower rank then pass over
that entry. -/
def merge (existing slots spare : List (Cell τ)) : List (Cell τ) :=
  match _chosen : spare.head?.filter fun cell =>
      cell.entry ≤ nextEntry slots && cell.entry ≤ nextEntry existing with
  | some cell => cell :: merge (skip cell.entry existing) (skip cell.entry slots) spare.tail
  | none =>
    match _taken : slots.head?.filter fun cell => cell.entry ≤ nextEntry existing with
    | some cell => cell :: merge (skip cell.entry existing) slots.tail spare
    | none =>
      match existing with
      | cell :: rest => cell :: merge rest slots spare
      | [] => []
  termination_by existing.length + slots.length + spare.length
  decreasing_by
    · have := length_skip_le cell.entry existing
      have := length_skip_le cell.entry slots
      cases spare with
      | nil => simp at _chosen
      | cons => simp; omega
    · have := length_skip_le cell.entry existing
      cases slots with
      | nil => simp at _taken
      | cons => simp; omega
    · simp

/-- Merge three rows onto the end of a buffer; gives the buffer and the number of cells written. -/
def mergeOnto (buffer existing slots spare : List (Cell τ)) : List (Cell τ) × Nat :=
  let after := buffer ++ merge existing slots spare
  (after, after.length - buffer.length)

end Cell

end Subdomain

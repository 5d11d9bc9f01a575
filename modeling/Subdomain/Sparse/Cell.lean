import Subdomain.Ordered.Sort
import Subdomain.Memory

/-!
# Cells and rows

A cell is a column number and a value. A row is a list of cells in ascending column order. One
column number is never used by a row: it marks the cells of a buffer that hold nothing.
-/

namespace Subdomain

/-- One column of a sparse row. -/
structure Cell (τ : Type) where
  entry : UInt64
  value : τ
  deriving DecidableEq, Repr

/-- The column number that marks a cell without content. -/
def vacantEntry : UInt64 := 0xFFFFFFFFFFFFFFFF

/-- Where a search ended. -/
inductive SearchResult where
  /-- The entry is at this position. -/
  | found (position : Nat)
  /-- The entry is absent and belongs at this position. -/
  | absent (position : Nat)
  deriving DecidableEq, Repr

/-- The position of what was found. -/
def SearchResult.position? : SearchResult → Option Nat
  | .found position => some position
  | .absent _ => none

namespace Cell

variable {τ : Type}

/-- A cell without content. -/
def vacant [Inhabited τ] : Cell τ := ⟨vacantEntry, default⟩

/-- Whether the cell is without content. -/
def isVacant (cell : Cell τ) : Bool := cell.entry == vacantEntry

/-- Mark a cell as one without content; its value stays. -/
def vacate (cell : Cell τ) : Cell τ := { cell with entry := vacantEntry }

/-- The cells that have content. -/
def filled (cells : List (Cell τ)) : List (Cell τ) := cells.filter fun cell => !cell.isVacant

/-- Whether each entry is below the next. -/
def Ascending (row : List (Cell τ)) : Prop :=
  row.Pairwise fun first second => first.entry < second.entry

instance (row : List (Cell τ)) : Decidable (Ascending row) :=
  inferInstanceAs (Decidable (row.Pairwise fun first second => first.entry < second.entry))

/-- Look for an entry in an ascending row. -/
def search (row : List (Cell τ)) (entry : UInt64) : SearchResult :=
  let position := (row.takeWhile (·.entry < entry)).length
  if row[position]?.any (·.entry == entry) then .found position else .absent position

/-- The value at an entry of a row. -/
def value? (row : List (Cell τ)) (entry : UInt64) : Option τ :=
  (row.find? (·.entry == entry)).map Cell.value

/-- Put a cell at its place in an ascending row. -/
def place (cell : Cell τ) (row : List (Cell τ)) : List (Cell τ) := placeOn Cell.entry cell row

/-- The cells in ascending order of their entries. -/
def sort (cells : List (Cell τ)) : List (Cell τ) := sortOn Cell.entry cells

/-- Change the value at the first cell with an entry; gives the new value and the new cells, or
nothing if no cell has the entry. -/
def modify? (entry : UInt64) (change : τ → τ) : List (Cell τ) → Option (τ × List (Cell τ))
  | [] => none
  | cell :: rest =>
    if cell.entry = entry then
      some (change cell.value, { cell with value := change cell.value } :: rest)
    else (modify? entry change rest).map fun (value, rest) => (value, cell :: rest)

/-- The same for an ascending row, where the search ends at the place of the entry. -/
def modifyAscending? (entry : UInt64) (change : τ → τ) :
    List (Cell τ) → Option (τ × List (Cell τ))
  | [] => none
  | cell :: rest =>
    if cell.entry < entry then
      (modifyAscending? entry change rest).map fun (value, rest) => (value, cell :: rest)
    else if cell.entry = entry then
      some (change cell.value, { cell with value := change cell.value } :: rest)
    else none

end Cell

end Subdomain

import Subdomain.Memory

/-!
# Block tables

Rows of one length in one buffer. All addressing goes through the row number, so its bound is checked
in one place.

A draft asks for the room of such a table when it is created, with a row of slots for each of its rows.
It keeps the slots of a row with the row, where they are read and written: writing a row of a table
leaves the others as they are (`BlockTable.row_writeRow`), and the slots of a draft stay those of the
table with which it was created (`Draft.slotTable_of_changeAll`).
-/

namespace Subdomain

/-- A table of rows of one length, kept in one buffer. -/
structure BlockTable (α : Type) where
  rows : Nat := 0
  stride : Nat := 0
  cells : List α := []
  deriving DecidableEq, Repr

namespace BlockTable

variable {α : Type}

/-- Refuse a table whose length no word can hold, then one that the memory does not grant. -/
def check (memory : Memory) (rows stride : Nat) : Except Error Unit :=
  if maxWord < rows * stride then .error (.allocationFailed maxWord)
  else if memory.grants (rows * stride) then .ok ()
  else .error (.allocationFailed (rows * stride))

/-- A table of equal elements. -/
def allocate (memory : Memory) (rows stride : Nat) (fill : α) : Except Error (BlockTable α) :=
  (check memory rows stride).map fun _ =>
    { rows, stride, cells := List.replicate (rows * stride) fill }

/-- The elements of a row. -/
def row (table : BlockTable α) (row : Nat) : Except Error (List α) :=
  if row < table.rows then .ok ((table.cells.drop (row * table.stride)).take table.stride)
  else .error (.rowOutOfBounds row table.rows)

/-- Write values over the first elements of a row; what does not fit is dropped. -/
def writeRow (table : BlockTable α) (row : Nat) (values : List α) : Except Error (BlockTable α) :=
  if row < table.rows then
    .ok { table with
      cells := overwrite (row * table.stride) (values.take table.stride) table.cells }
  else .error (.rowOutOfBounds row table.rows)

end BlockTable

end Subdomain

import Subdomain.Error
import Subdomain.Ordered.Interval

/-!
# Row layouts

The rows of a field fall into three regions, one after the other: rows that only this rank knows,
rows that it owns but others copy, and copies of rows owned elsewhere.
-/

namespace Subdomain

/-- A region of rows. -/
inductive Region where
  /-- Owned here and unknown elsewhere. -/
  | exclusive
  /-- Owned here and copied elsewhere. -/
  | shared
  /-- Copied here and owned elsewhere. -/
  | ghost
  deriving DecidableEq, Repr

/-- The number of rows in each region. -/
structure Layout where
  exclusive : Nat := 0
  shared : Nat := 0
  ghost : Nat := 0
  deriving DecidableEq, Repr

namespace Layout

/-- Rows of all regions. -/
def numRows (layout : Layout) : Nat := layout.exclusive + layout.shared + layout.ghost

/-- Rows of the shared and ghost regions, whose capacity is fixed. -/
def numFixedRows (layout : Layout) : Nat := layout.shared + layout.ghost

/-- The three counts in region order. -/
def counts (layout : Layout) : Nat × Nat × Nat :=
  (layout.exclusive, layout.shared, layout.ghost)

/-- The rows of a region. -/
def rows (layout : Layout) : Region → Interval
  | .exclusive => ⟨0, layout.exclusive⟩
  | .shared => ⟨layout.exclusive, layout.exclusive + layout.shared⟩
  | .ghost => ⟨layout.exclusive + layout.shared, layout.numRows⟩

/-- The region of a row. -/
def regionOf (layout : Layout) (row : Nat) : Option Region :=
  [Region.exclusive, .shared, .ghost].find? (row ∈ layout.rows ·)

/-- Refuse a row outside the layout. -/
def checkRow (layout : Layout) (row : Nat) : Except Error Unit :=
  if row < layout.numRows then .ok () else .error (.rowOutOfBounds row layout.numRows)

end Layout

end Subdomain

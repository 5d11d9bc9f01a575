import Subdomain.Mesh.Adjacency

/-!
# Neighbor tables

An explicit table of each cell's neighbors. It relates cells only and knows of no dimension: there
are no entities that cells could share.
-/

namespace Subdomain

/-- The neighbors of each cell. -/
structure NeighborTable where
  rows : SortedMap EntityId IdSet := ∅
  deriving DecidableEq

namespace NeighborTable

/-- Add neighbors to a cell's row. -/
def addRow (table : NeighborTable) (cell : EntityId) (neighbors : IdSet) : NeighborTable where
  rows := table.rows.update cell ∅ (· ∪ neighbors)

/-- A table of rows; rows of the same cell are merged. -/
def ofRows (rows : List (EntityId × List EntityId)) : NeighborTable :=
  rows.foldl (fun table row => table.addRow row.1 (.ofList row.2)) {}

/-- Make two cells each other's neighbors. -/
def addEdge (table : NeighborTable) (first second : EntityId) : NeighborTable :=
  (table.addRow first (.singleton second)).addRow second (.singleton first)

/-- Number of cells with a row. -/
def numCells (table : NeighborTable) : Nat := table.rows.size

/-- The neighbors of a cell, if it has a row. -/
def row? (table : NeighborTable) (cell : EntityId) : Option IdSet := table.rows.get? cell

/-- The cells in the rows of some cells. -/
def neighbors (table : NeighborTable) (cells : IdSet) : IdSet :=
  .ofList (cells.toList.flatMap fun cell => ((table.row? cell).getD ∅).toList)

/-- The table as an adjacency without entities. -/
def adjacency (table : NeighborTable) : Adjacency where
  cellDim := 0
  neighbors cells _ := table.neighbors cells
  entityClosure _ dim := .error (.unsupportedEntityDim dim)
  referencers dim _ := .error (.unsupportedEntityDim dim)

end NeighborTable

end Subdomain

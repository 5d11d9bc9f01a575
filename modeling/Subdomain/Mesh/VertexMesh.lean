import Subdomain.Mesh.Adjacency

/-!
# Meshes of vertices

Cells described by their vertices. Cells are numbered by position; two cells are neighbors when they
have enough vertices in common. The entities are the vertices, of dimension 0, and the cells
themselves.
-/

namespace Subdomain

/-- Cells described by their vertices, with the cells that reference each vertex. -/
structure VertexMesh where
  /-- Dimension of the cells. -/
  dim : Nat
  /-- The vertices of each cell. -/
  cells : List (List EntityId)
  /-- The cells that reference each vertex. -/
  vertexCells : SortedMap EntityId IdSet
  deriving DecidableEq

namespace VertexMesh

/-- The cells of a list that reference a vertex. -/
def cellsAround (cells : List (List EntityId)) (vertex : EntityId) : IdSet :=
  .ofList ((cells.zipIdx.filter fun (vertices, _) => vertices.contains vertex).map
    fun (_, number) => UInt64.ofNat number)

/-- The mesh of some cells. -/
def ofCells (dim : Nat) (cells : List (List EntityId)) : VertexMesh where
  dim := dim
  cells := cells
  vertexCells := .ofKeys (.ofList cells.flatten) fun vertex => some (cellsAround cells vertex)

/-- A grid of quadrilaterals, `columns` wide and `rows` high. Cells and vertices are numbered row by
row, and the vertices of a cell are listed counter-clockwise. -/
def grid (columns rows : Nat) : VertexMesh :=
  let vertex (column row : Nat) : EntityId := .ofNat (row * (columns + 1) + column)
  ofCells 2 <| (List.range rows).flatMap fun row => (List.range columns).map fun column =>
    [vertex column row, vertex (column + 1) row, vertex (column + 1) (row + 1),
      vertex column (row + 1)]

/-- Number of cells. -/
def numCells (mesh : VertexMesh) : Nat := mesh.cells.length

/-- Number of vertices that a cell references. -/
def numVertices (mesh : VertexMesh) : Nat := mesh.vertexCells.size

/-- The vertices of a cell; a number that is no cell has none. -/
def verticesOf (mesh : VertexMesh) (cell : EntityId) : List EntityId :=
  (mesh.cells[cell.toNat]?).getD []

/-- The cells that reference a vertex. -/
def cellsOf (mesh : VertexMesh) (vertex : EntityId) : IdSet :=
  (mesh.vertexCells.get? vertex).getD ∅

/-- The other cells that are met more than `thruDim` times on a walk over a cell's vertices and the
cells around each. -/
def neighborsOf (mesh : VertexMesh) (cell : EntityId) (thruDim : Nat) : List EntityId :=
  let met := (mesh.verticesOf cell).flatMap fun vertex => (mesh.cellsOf vertex).toList
  met.filter fun other => other != cell && decide (thruDim < met.count other)

/-- The neighbors of some cells. -/
def neighbors (mesh : VertexMesh) (cells : IdSet) (thruDim : Nat) : IdSet :=
  .ofList (cells.toList.flatMap fun cell => mesh.neighborsOf cell thruDim)

/-- The vertices of some cells, or the cells themselves. -/
def entityClosure (mesh : VertexMesh) (cells : IdSet) (dim : Nat) : Except Error IdSet :=
  if dim = 0 then .ok (.ofList (cells.toList.flatMap mesh.verticesOf))
  else if dim = mesh.dim then .ok cells
  else .error (.unsupportedEntityDim dim)

/-- The cells that reference a vertex; a cell is referenced by itself. -/
def referencers (mesh : VertexMesh) (dim : Nat) (id : EntityId) : Except Error IdSet :=
  if dim = 0 then .ok (mesh.cellsOf id)
  else if dim = mesh.dim then .ok (.singleton id)
  else .error (.unsupportedEntityDim dim)

/-- The mesh as an adjacency. -/
def adjacency (mesh : VertexMesh) : Adjacency where
  cellDim := mesh.dim
  neighbors := mesh.neighbors
  entityClosure := mesh.entityClosure
  referencers := mesh.referencers

end VertexMesh

end Subdomain

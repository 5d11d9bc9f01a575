import Subdomain.Memory
import Subdomain.Mesh.VertexMesh
import Subdomain.Proofs.Ordered

/-!
# Cells and their vertices

In a mesh that is made from a list of cells, a vertex knows exactly the cells that have it, and two
cells are neighbors through dimension 0 exactly when they have a vertex in common.
-/

namespace Subdomain

namespace VertexMesh

variable {dim thruDim : Nat} {cells : List (List EntityId)} {cell other vertex : EntityId}

/-- A mesh that fits in memory, as every mesh does that has been built: 24 bytes for the list of each
cell, and for the table entry of each vertex, are no more than one allocation may take. -/
structure InMemory (mesh : VertexMesh) : Prop where
  cells : mesh.numCells * 24 ≤ maxAllocationBytes
  vertices : mesh.numVertices * 24 ≤ maxAllocationBytes

theorem mem_cellsAround :
    cell ∈ cellsAround cells vertex ↔ ∃ number vertices,
      cells[number]? = some vertices ∧ vertex ∈ vertices ∧ UInt64.ofNat number = cell := by
  simp only [cellsAround, SortedSet.mem_ofList, List.mem_map, List.mem_filter,
    List.mem_zipIdx_iff_getElem?, List.contains_iff_mem]
  constructor
  · rintro ⟨⟨vertices, number⟩, ⟨found, has⟩, same⟩
    exact ⟨number, vertices, found, has, same⟩
  · rintro ⟨number, vertices, found, has, same⟩
    exact ⟨(vertices, number), ⟨found, has⟩, same⟩

theorem mem_verticesOf_ofCells :
    vertex ∈ (ofCells dim cells).verticesOf cell ↔
      ∃ vertices, cells[cell.toNat]? = some vertices ∧ vertex ∈ vertices := by
  rw [verticesOf, ofCells]
  cases cells[cell.toNat]? <;> simp

/-- A mesh whose vertices know exactly the cells that have them. -/
def Faithful (mesh : VertexMesh) : Prop :=
  ∀ cell vertex, cell ∈ mesh.cellsOf vertex ↔ vertex ∈ mesh.verticesOf cell

theorem faithful_ofCells (small : cells.length ≤ UInt64.size) : (ofCells dim cells).Faithful := by
  intro cell vertex
  have around : cell ∈ cellsAround cells vertex ↔ vertex ∈ (ofCells dim cells).verticesOf cell := by
    rw [mem_cellsAround, mem_verticesOf_ofCells]
    constructor
    · rintro ⟨number, vertices, found, has, rfl⟩
      have inside := (List.getElem?_eq_some_iff.1 found).1
      rw [UInt64.toNat_ofNat_of_lt' (Nat.lt_of_lt_of_le inside small)]
      exact ⟨vertices, found, has⟩
    · rintro ⟨vertices, found, has⟩
      exact ⟨cell.toNat, vertices, found, has, UInt64.ofNat_toNat⟩
  rw [cellsOf, ofCells, SortedMap.get?_ofKeys]
  by_cases known : vertex ∈ SortedSet.ofList cells.flatten
  · rw [if_pos known]
    exact around
  · rw [if_neg known]
    constructor
    · intro absurdity
      cases absurdity
    · intro has
      rcases mem_verticesOf_ofCells.1 has with ⟨vertices, found, has⟩
      apply absurd _ known
      rw [SortedSet.mem_ofList, List.mem_flatten]
      exact ⟨vertices, List.mem_of_getElem? found, has⟩

variable {mesh : VertexMesh} {set : IdSet}

theorem mem_neighbors :
    other ∈ mesh.neighbors set thruDim ↔ ∃ cell ∈ set, other ∈ mesh.neighborsOf cell thruDim := by
  simp [neighbors, SortedSet.mem_toList]

theorem exists_vertex_of_mem_neighborsOf (neighbor : other ∈ mesh.neighborsOf cell thruDim) :
    ∃ vertex ∈ mesh.verticesOf cell, other ∈ mesh.cellsOf vertex := by
  rw [neighborsOf, List.mem_filter, List.mem_flatMap] at neighbor
  exact neighbor.1

/-- Through dimension 0 one common vertex is enough. -/
theorem mem_neighborsOf_zero (apart : other ≠ cell) (has : vertex ∈ mesh.verticesOf cell)
    (around : other ∈ mesh.cellsOf vertex) : other ∈ mesh.neighborsOf cell 0 := by
  have met : other ∈ (mesh.verticesOf cell).flatMap fun vertex => (mesh.cellsOf vertex).toList :=
    List.mem_flatMap.2 ⟨vertex, has, around⟩
  rw [neighborsOf, List.mem_filter]
  constructor
  · exact met
  · rw [Bool.and_eq_true, bne_iff_ne, decide_eq_true_eq]
    exact ⟨apart, List.count_pos_iff.2 met⟩

/-! ## Sizes -/

theorem toNat_lt_numCells (has : vertex ∈ mesh.verticesOf cell) : cell.toNat < mesh.numCells := by
  rw [verticesOf] at has
  cases found : mesh.cells[cell.toNat]? with
  | none =>
      rw [found] at has
      cases has
  | some vertices => exact (List.getElem?_eq_some_iff.1 found).1

theorem mem_keys_vertexCells (around : cell ∈ mesh.cellsOf vertex) :
    vertex ∈ mesh.vertexCells.keys := by
  rw [cellsOf] at around
  cases found : mesh.vertexCells.get? vertex with
  | none =>
      rw [found] at around
      cases around
  | some cells => exact List.mem_map.2 ⟨_, SortedMap.get?_eq_some_iff.1 found, rfl⟩

/-- A set of neighbors is no larger than the mesh. -/
theorem size_le_numCells (faithful : mesh.Faithful)
    (each : ∀ other ∈ set, ∃ cell, other ∈ mesh.neighborsOf cell thruDim) :
    set.size ≤ mesh.numCells := by
  apply SortedSet.size_le
  intro other member
  rcases each other member with ⟨cell, neighbor⟩
  rcases exists_vertex_of_mem_neighborsOf neighbor with ⟨vertex, _, around⟩
  exact toNat_lt_numCells ((faithful other vertex).1 around)

/-- Nor is a set of vertices. -/
theorem size_le_numVertices (faithful : mesh.Faithful)
    (each : ∀ vertex ∈ set, ∃ cell, vertex ∈ mesh.verticesOf cell) :
    set.size ≤ mesh.numVertices := by
  have keys : mesh.numVertices = mesh.vertexCells.keys.size := by
    rw [numVertices, SortedMap.size, SortedSet.size, SortedMap.keys, List.length_map]
  rw [keys]
  apply SortedSet.size_le_size
  intro vertex member
  rcases each vertex member with ⟨cell, has⟩
  exact mem_keys_vertexCells ((faithful cell vertex).2 has)

end VertexMesh

end Subdomain

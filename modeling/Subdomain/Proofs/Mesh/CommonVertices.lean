import Mathlib.Data.List.Perm.Subperm
import Subdomain.Proofs.Mesh.VertexMesh

/-!
# Neighbors and common vertices

A cell finds its neighbors on a walk over its own vertices: it counts how often it comes to a vertex that
another cell has too.  Where the cell lists none of these vertices twice, that is how many distinct
vertices the two have in common, and the same from either side.  A vertex that is listed twice counts
twice, but only for the cell that lists it so.
-/

namespace Subdomain

namespace VertexMesh

variable {mesh : VertexMesh} {cell other vertex : EntityId} {thruDim : Nat}

/-- The vertices of a cell that another cell has too, as often as the first lists them. -/
def sharedVertices (mesh : VertexMesh) (cell other : EntityId) : List EntityId :=
  (mesh.verticesOf cell).filter fun vertex => decide (vertex ∈ mesh.verticesOf other)

/-- The distinct vertices that two cells have in common. -/
def commonVertices (mesh : VertexMesh) (cell other : EntityId) : IdSet :=
  .ofList (mesh.verticesOf cell) ∩ .ofList (mesh.verticesOf other)

theorem mem_sharedVertices : vertex ∈ mesh.sharedVertices cell other ↔
    vertex ∈ mesh.verticesOf cell ∧ vertex ∈ mesh.verticesOf other := by
  rw [sharedVertices, List.mem_filter, decide_eq_true_eq]

theorem commonVertices_eq_ofList :
    mesh.commonVertices cell other = .ofList (mesh.sharedVertices cell other) := by
  ext vertex
  rw [commonVertices, SortedSet.mem_inter, SortedSet.mem_ofList, SortedSet.mem_ofList,
    SortedSet.mem_ofList, mem_sharedVertices]

theorem commonVertices_comm : mesh.commonVertices cell other = mesh.commonVertices other cell := by
  ext vertex
  rw [commonVertices, commonVertices, SortedSet.mem_inter, SortedSet.mem_inter, and_comm]

theorem size_commonVertices_le :
    (mesh.commonVertices cell other).size ≤ (mesh.sharedVertices cell other).length := by
  rw [commonVertices_eq_ofList]
  exact SortedSet.size_ofList_le _

/-- Repetition is all that makes the difference. -/
theorem size_commonVertices_eq_iff :
    (mesh.commonVertices cell other).size = (mesh.sharedVertices cell other).length ↔
      (mesh.sharedVertices cell other).Nodup := by
  rw [commonVertices_eq_ofList]
  exact SortedSet.size_ofList_eq_iff

/-! ## Walks -/

/-- On a walk over some vertices a cell is met once at each vertex that it has. -/
theorem count_met (faithful : mesh.Faithful) (vertices : List EntityId) :
    (vertices.flatMap fun vertex => (mesh.cellsOf vertex).toList).count other =
      (vertices.filter fun vertex => decide (vertex ∈ mesh.verticesOf other)).length := by
  induction vertices with
  | nil => rfl
  | cons vertex vertices ih =>
      rw [List.flatMap_cons, List.count_append, ih]
      by_cases has : vertex ∈ mesh.verticesOf other
      · have around : other ∈ (mesh.cellsOf vertex).toList :=
          SortedSet.mem_toList.2 ((faithful other vertex).2 has)
        rw [List.count_eq_one_of_mem (mesh.cellsOf vertex).nodup_toList around,
          List.filter_cons_of_pos (by simpa using has), List.length_cons, Nat.add_comm]
      · have apart : other ∉ (mesh.cellsOf vertex).toList := fun around =>
          has ((faithful other vertex).1 (SortedSet.mem_toList.1 around))
        rw [List.count_eq_zero_of_not_mem apart, Nat.zero_add,
          List.filter_cons_of_neg (by simpa using has)]

/-- Cells that are met more often than the dimension says are neighbors. -/
theorem mem_neighborsOf_iff (faithful : mesh.Faithful) :
    other ∈ mesh.neighborsOf cell thruDim ↔
      other ≠ cell ∧ thruDim < (mesh.sharedVertices cell other).length := by
  rw [sharedVertices, ← count_met faithful, neighborsOf, List.mem_filter, Bool.and_eq_true,
    bne_iff_ne, decide_eq_true_eq]
  constructor
  · rintro ⟨_, neighbor⟩
    exact neighbor
  · rintro ⟨apart, often⟩
    exact ⟨List.count_pos_iff.1 (Nat.zero_lt_of_lt often), apart, often⟩

theorem mem_neighbors_singleton_iff (faithful : mesh.Faithful) :
    other ∈ mesh.adjacency.neighbors (.singleton cell) thruDim ↔
      other ≠ cell ∧ thruDim < (mesh.sharedVertices cell other).length := by
  have single : other ∈ mesh.adjacency.neighbors (.singleton cell) thruDim ↔
      other ∈ mesh.neighborsOf cell thruDim := by
    simp only [adjacency, mem_neighbors, SortedSet.mem_singleton, exists_eq_left]
  rw [single, mem_neighborsOf_iff faithful]

/-- If a cell lists no common vertex twice, its neighbors have enough common vertices. -/
theorem mem_neighbors_singleton_iff_common (faithful : mesh.Faithful)
    (distinct : (mesh.sharedVertices cell other).Nodup) :
    other ∈ mesh.adjacency.neighbors (.singleton cell) thruDim ↔
      other ≠ cell ∧ thruDim < (mesh.commonVertices cell other).size := by
  rw [mem_neighbors_singleton_iff faithful, size_commonVertices_eq_iff.2 distinct]

/-- Common vertices are always enough, repeated or not. -/
theorem mem_neighbors_singleton_of_common (faithful : mesh.Faithful) (apart : other ≠ cell)
    (enough : thruDim < (mesh.commonVertices cell other).size) :
    other ∈ mesh.adjacency.neighbors (.singleton cell) thruDim :=
  (mem_neighbors_singleton_iff faithful).2
    ⟨apart, Nat.lt_of_lt_of_le enough size_commonVertices_le⟩

/-- Through every dimension neighbors have enough common vertices exactly if none is listed twice: where
there are more listings than vertices, the number of vertices is a dimension that goes wrong. -/
theorem neighbors_iff_common_iff_nodup (faithful : mesh.Faithful) (apart : other ≠ cell) :
    (∀ thruDim, other ∈ mesh.adjacency.neighbors (.singleton cell) thruDim ↔
      thruDim < (mesh.commonVertices cell other).size) ↔
      (mesh.sharedVertices cell other).Nodup := by
  constructor
  · intro exactly
    apply size_commonVertices_eq_iff.1
    apply Nat.le_antisymm size_commonVertices_le
    apply Nat.le_of_not_lt
    intro more
    have neighbor := (mem_neighbors_singleton_iff faithful).2 ⟨apart, more⟩
    exact Nat.lt_irrefl _ ((exactly _).1 neighbor)
  · intro distinct thruDim
    rw [mem_neighbors_singleton_iff_common faithful distinct]
    exact and_iff_right apart

/-! ## Main result -/

/-- Two cells of a mesh are neighbors if the first lists enough vertices of the second, and so whenever
they have enough vertices in common; it takes a vertex that the first lists twice to make neighbors of
cells with fewer.  Apart from those, neighbors are mutual.  Always no cell is its own neighbor, a higher
dimension leaves fewer neighbors, and the neighbors of some cells are those of each of them. -/
theorem neighbors_count_listings {dim : Nat} {cells : List (List EntityId)}
    (small : cells.length ≤ UInt64.size) :
    let mesh := ofCells dim cells
    let near (thruDim : Nat) (cell other : EntityId) : Prop :=
      other ∈ mesh.adjacency.neighbors (.singleton cell) thruDim
    (∀ cell other, cell ≠ other →
      (∀ thruDim, near thruDim cell other ↔
        thruDim + 1 ≤ (mesh.sharedVertices cell other).length) ∧
      (∀ thruDim, thruDim + 1 ≤ (mesh.commonVertices cell other).size → near thruDim cell other) ∧
      ((∀ thruDim, near thruDim cell other ↔
          thruDim + 1 ≤ (mesh.commonVertices cell other).size) ↔
        (mesh.sharedVertices cell other).Nodup) ∧
      ((mesh.sharedVertices cell other).Nodup → (mesh.sharedVertices other cell).Nodup →
        ∀ thruDim, near thruDim cell other ↔ near thruDim other cell)) ∧
    (∀ thruDim cell, ¬ near thruDim cell cell) ∧
    (∀ thruDim higher cell other, thruDim ≤ higher → near higher cell other →
      near thruDim cell other) ∧
    ∀ thruDim set other, other ∈ mesh.adjacency.neighbors set thruDim ↔
      ∃ cell ∈ set, near thruDim cell other := by
  intro mesh near
  have faithful : mesh.Faithful := faithful_ofCells small
  have near_iff : ∀ thruDim cell other, near thruDim cell other ↔
      other ≠ cell ∧ thruDim < (mesh.sharedVertices cell other).length := fun _ _ _ =>
    mem_neighbors_singleton_iff faithful
  refine ⟨fun cell other apart => ⟨?_, ?_, ?_, ?_⟩, ?_, ?_, ?_⟩
  · intro thruDim
    rw [near_iff]
    exact and_iff_right apart.symm
  · intro thruDim enough
    exact mem_neighbors_singleton_of_common faithful apart.symm enough
  · exact neighbors_iff_common_iff_nodup faithful apart.symm
  · intro distinct otherDistinct thruDim
    have forth := (neighbors_iff_common_iff_nodup faithful apart.symm).2 distinct thruDim
    have back := (neighbors_iff_common_iff_nodup faithful apart).2 otherDistinct thruDim
    rw [commonVertices_comm] at back
    exact forth.trans back.symm
  · intro thruDim cell itself
    exact ((near_iff thruDim cell cell).1 itself).1 rfl
  · intro thruDim higher cell other lower neighbor
    rw [near_iff] at neighbor ⊢
    exact ⟨neighbor.1, Nat.lt_of_le_of_lt lower neighbor.2⟩
  · intro thruDim set other
    simp only [near, adjacency, mem_neighbors, SortedSet.mem_singleton, exists_eq_left]

/-- A cell that lists its only vertex twice has a neighbor through dimension 1 with which it has just one
vertex in common, and is not that cell's neighbor. -/
theorem neighbors_repeatedVertex :
    let mesh := ofCells 2 [[0, 0], [0]]
    (mesh.commonVertices 0 1).size = 1 ∧
      1 ∈ mesh.adjacency.neighbors (.singleton 0) 1 ∧
      0 ∉ mesh.adjacency.neighbors (.singleton 1) 1 := by
  decide

/-- Two cells with a common edge, the first of which lists a vertex of its own twice. -/
theorem neighbors_count_listings_commonEdge :
    let mesh := ofCells 2 [[4, 4, 1, 2], [2, 1, 3]]
    (mesh.commonVertices 0 1).size = 2 ∧
      1 ∈ mesh.adjacency.neighbors (.singleton 0) 1 ∧
      0 ∈ mesh.adjacency.neighbors (.singleton 1) 1 ∧
      1 ∉ mesh.adjacency.neighbors (.singleton 0) 2 := by
  intro mesh
  have small : [[4, 4, 1, 2], [2, 1, (3 : EntityId)]].length ≤ UInt64.size := by decide
  have vertices : (mesh.commonVertices 0 1).size = 2 := by decide
  have distinct : (mesh.sharedVertices 0 1).Nodup := by decide
  have otherDistinct : (mesh.sharedVertices 1 0).Nodup := by decide
  obtain ⟨-, -, exactly, bothWays⟩ :=
    (@neighbors_count_listings 2 _ small).1 0 1 (by decide)
  have exactly := exactly.2 distinct
  have neighbor := (exactly 1).2 (Nat.le_of_eq vertices.symm)
  refine ⟨vertices, neighbor, (bothWays distinct otherDistinct 1).1 neighbor, ?_⟩
  intro further
  exact absurd ((exactly 2).1 further) (by rw [vertices]; decide)

end VertexMesh

end Subdomain

import Subdomain.Proofs.Halo.Agreement
import Subdomain.Proofs.Halo.Rings
import Subdomain.Proofs.Mesh.CommonVertices

/-!
# Sharing without communication

Which of its cells a rank shares is decided by the requests of the others.  If neighbors are mutual and
no cell has two owners, a rank can tell by itself: it shares the cells that are adjacent to its first
ring.  A rank that copies a cell has a neighbor of it, which lies in the ring of the cell's owner; and
the owner of a ring cell copies the owned cells adjacent to it.
-/

namespace Subdomain

open Subdomain.Group Ownership

/-! ## Mutual neighbors -/

/-- Neighbors through a dimension are each other's neighbors. -/
def Adjacency.Symmetric (adjacency : Adjacency) (dim : Nat) : Prop :=
  ∀ first second, second ∈ adjacency.neighbors (.singleton first) dim →
    first ∈ adjacency.neighbors (.singleton second) dim

/-- Two cells have as many vertices in common as the other way round, if neither repeats one. -/
theorem VertexMesh.symmetric_adjacency {mesh : VertexMesh} (faithful : mesh.Faithful)
    (distinct : ∀ vertices ∈ mesh.cells, vertices.Nodup) (thruDim : Nat) :
    mesh.adjacency.Symmetric thruDim := by
  have distinct : ∀ cell, (mesh.verticesOf cell).Nodup := by
    intro cell
    rw [verticesOf]
    cases found : mesh.cells[cell.toNat]? with
    | none => exact List.nodup_nil
    | some vertices => exact distinct vertices (List.mem_of_getElem? found)
  intro first second neighbor
  rw [mem_neighbors_singleton_iff_common faithful ((distinct _).filter _)] at neighbor ⊢
  rw [commonVertices_comm]
  exact ⟨neighbor.1.symm, neighbor.2⟩

namespace Decomposition

variable {parts : Decomposition} {oracle : Adjacency} {size : Rank} {seat user : Seat}
  {cell : EntityId}

/-! ## Copies and the first ring -/

/-- Some other rank copies an owned cell exactly if its owner lists a sharer. -/
theorem mem_sharedIds_cellColoring :
    cell ∈ (parts.cellColoring size seat).sharedIds ↔
      cell ∈ parts.primary seat ∧
        ∃ user : Seat, user.size = size ∧ cell ∈ parts.cellCopies user seat := by
  rw [cellColoring, Coloring.mem_sharedIds_assemble, Bool.eq_false_iff, ne_eq,
    SortedSet.isEmpty_iff, not_forall]
  simp only [not_not, mem_sharersOf]
  apply and_congr_right
  intro _
  constructor
  · rintro ⟨_, user, inGroup, _, copied⟩
    exact ⟨user, inGroup, copied⟩
  · rintro ⟨user, inGroup, copied⟩
    exact ⟨user.rank, user, inGroup, rfl, copied⟩

/-- The other owned cells are exclusive. -/
theorem exclusiveIds_cellColoring :
    (parts.cellColoring size seat).exclusiveIds =
      parts.primary seat \ (parts.cellColoring size seat).sharedIds := by
  ext cell
  rw [SortedSet.mem_sdiff, cellColoring, Coloring.mem_exclusiveIds_assemble,
    Coloring.mem_sharedIds_assemble]
  cases (sharersOf size parts.cellCopies seat cell).isEmpty <;> simp

section Common

variable (common : ∀ seat, parts.adjacency seat = oracle) (additive : oracle.Additive)

include common additive

/-- A ring cell is a neighbor of an owned one. -/
theorem mem_nearest_iff_neighbor : cell ∈ parts.nearest seat ↔
    (∃ base ∈ parts.primary seat,
      cell ∈ oracle.neighbors (.singleton base) parts.config.thruDim) ∧
      cell ∉ parts.primary seat := by
  rw [nearest, SortedSet.mem_sdiff, closure, Adjacency.closure, SortedSet.mem_union, common,
    additive, or_and_right]
  simp

/-- A cell that another rank copies is adjacent to the ring of its owner: the cell next to it that the
other rank owns is in the ring. -/
theorem adjacent_of_requested (symmetric : oracle.Symmetric parts.config.thruDim)
    (disjoint : parts.Disjoint size) (inGroup : seat.size = size) (userInGroup : user.size = size)
    (apart : seat ≠ user) (owned : cell ∈ parts.primary seat) (near : cell ∈ parts.nearest user) :
    cell ∈ oracle.neighbors (parts.nearest seat) parts.config.thruDim := by
  rcases ((mem_nearest_iff_neighbor common additive).1 near).1 with ⟨base, baseOwned, neighbor⟩
  have outside : base ∉ parts.primary seat := fun twice =>
    apart (disjoint seat user inGroup userInGroup base twice baseOwned)
  have ring : base ∈ parts.nearest seat := by
    apply (mem_nearest_iff_neighbor common additive).2
    exact ⟨⟨cell, owned, symmetric base cell neighbor⟩, outside⟩
  exact (additive _ _ _).2 ⟨base, ring, neighbor⟩

/-- An owned cell that is adjacent to a ring cell is in the ring of that cell's owner. -/
theorem requested_of_adjacent (disjoint : parts.Disjoint size)
    (resolvable : Resolvable size parts.primary parts.nearest) (inGroup : seat.size = size)
    (owned : cell ∈ parts.primary seat)
    (adjacent : cell ∈ oracle.neighbors (parts.nearest seat) parts.config.thruDim) :
    ∃ user : Seat, user.size = size ∧ seat ≠ user ∧ cell ∈ parts.nearest user := by
  rcases (additive _ _ _).1 adjacent with ⟨base, ring, neighbor⟩
  rcases resolvable.owners seat inGroup base ring with ⟨user, sole⟩
  have apart : seat ≠ user := by
    rintro rfl
    exact ((mem_nearest_iff_neighbor common additive).1 ring).2 sole.owns
  have foreign : cell ∉ parts.primary user := fun twice =>
    apart (disjoint seat user inGroup sole.inGroup cell owned twice)
  refine ⟨user, sole.inGroup, apart, ?_⟩
  exact (mem_nearest_iff_neighbor common additive).2 ⟨⟨base, sole.owns, neighbor⟩, foreign⟩

end Common

/-- If the ghosts are the first ring, neighbors are mutual and no cell has two owners, then once the
cells are colored each rank shares the owned cells that are adjacent to its ring, and no others. -/
theorem sharing_is_adjacency_to_ring {patience : Patience} {halos : Seat → PrimaryHalo}
    (common : ∀ seat, parts.adjacency seat = oracle) (additive : oracle.Additive)
    (symmetric : oracle.Symmetric parts.config.thruDim) (disjoint : parts.Disjoint size)
    (depth : parts.config.ghostDepth = .nearest)
    (completes : Completes patience size parts.colorCells halos) (inGroup : seat.size = size) :
    let adjacent := oracle.neighbors (halos seat).nearest parts.config.thruDim
    (halos seat).coloring.sharedIds = parts.primary seat ∩ adjacent ∧
      (halos seat).coloring.exclusiveIds = parts.primary seat \ adjacent := by
  intro adjacent
  rcases completes_color_iff.1 completes with ⟨colorable, same⟩
  have coloring : (halos seat).coloring = parts.cellColoring size seat := by
    rw [← same seat inGroup, PrimaryHalo.coloring_halo]
  have ring : (halos seat).nearest = parts.nearest seat := by
    rw [← same seat inGroup]
    rfl
  have requests : parts.ghostRings = parts.nearest := by
    funext seat
    rw [ghostRings, depth]
  have shared : (halos seat).coloring.sharedIds = parts.primary seat ∩ adjacent := by
    ext cell
    rw [coloring, mem_sharedIds_cellColoring, SortedSet.mem_inter]
    apply and_congr_right
    intro owned
    simp only [cellCopies, mem_copiesOf, requests, adjacent, ring]
    constructor
    · rintro ⟨user, userInGroup, apart, near, _⟩
      exact adjacent_of_requested common additive symmetric disjoint inGroup userInGroup apart owned
        near
    · intro neighbor
      rcases requested_of_adjacent common additive disjoint colorable.nearest inGroup owned neighbor
        with ⟨user, userInGroup, apart, near⟩
      exact ⟨user, userInGroup, apart, near, owned⟩
  constructor
  · exact shared
  · rw [coloring, exclusiveIds_cellColoring, ← coloring, shared]
    ext cell
    simp only [SortedSet.mem_sdiff, SortedSet.mem_inter]
    tauto

open VertexMesh in
/-- Of two cells that share an edge, on a rank each, the first is shared. -/
theorem sharing_is_adjacency_to_ring_pair :
    ∃ halos, Completes .limited 2 pair.colorCells halos ∧
      let first : Seat := ⟨0, 2, by decide⟩
      (halos first).nearest = .singleton 1 ∧
        (halos first).coloring.sharedIds =
          .singleton 0 ∩ (ofCells 2 twoCells).adjacency.neighbors (.singleton 1) 0 ∧
        (halos first).coloring.sharedIds = .singleton 0 ∧
        (halos first).coloring.exclusiveIds = ∅ := by
  have halos : Completes .limited 2 pair.colorCells (pair.halo 2) :=
    completes_color_iff.2 ⟨colorable_pair, fun _ _ => rfl⟩
  have symmetric := symmetric_adjacency faithful_twoCells (by decide) 0
  have sharing := @sharing_is_adjacency_to_ring pair _ 2 ⟨0, 2, by decide⟩ _ _ (fun _ => rfl)
    (additive_adjacency _) symmetric disjoint_pair rfl halos rfl
  have ring : (pair.halo 2 ⟨0, 2, by decide⟩).nearest = .singleton 1 := by decide +kernel
  rw [ring] at sharing
  refine ⟨_, halos, ring, sharing.1, sharing.1.trans ?_, sharing.2.trans ?_⟩
  · decide +kernel
  · decide +kernel

end Decomposition

end Subdomain

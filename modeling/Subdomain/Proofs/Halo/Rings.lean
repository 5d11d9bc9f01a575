import Subdomain.Mesh.NeighborTable
import Subdomain.Proofs.Halo.Refusal
import Subdomain.Proofs.Halo.VertexOwnership
import Subdomain.Proofs.Message.Failure

/-!
# Rings and distances

If neighbors of cells are neighbors of single cells, the rings around a rank's cells are the cells at
distance 1 and 2 from them.  The coloring of cells succeeds on all ranks exactly when each of these
cells has one owner.  Otherwise some rank finds out, and it says which cell it is and who claims it.
-/

namespace Subdomain

open Subdomain.Group Ownership

namespace Adjacency

/-- The neighbors of some cells are the neighbors of each of them. -/
def Additive (adjacency : Adjacency) : Prop :=
  ∀ cells dim other, other ∈ adjacency.neighbors cells dim ↔
    ∃ cell ∈ cells, other ∈ adjacency.neighbors (.singleton cell) dim

/-- A way from a cell to another, from neighbor to neighbor. -/
inductive Walk (adjacency : Adjacency) (dim : Nat) : Nat → EntityId → EntityId → Prop where
  | stay (cell : EntityId) : Walk adjacency dim 0 cell cell
  | step {count : Nat} {first middle last : EntityId} (front : Walk adjacency dim count first middle)
      (neighbor : last ∈ adjacency.neighbors (.singleton middle) dim) :
      Walk adjacency dim (count + 1) first last

/-- A cell that some steps lead to from one of a set of cells. -/
def Reached (adjacency : Adjacency) (dim : Nat) (cells : IdSet) (count : Nat) (cell : EntityId) :
    Prop :=
  ∃ base ∈ cells, adjacency.Walk dim count base cell

/-- A cell that no fewer steps lead to. -/
structure AtDistance (adjacency : Adjacency) (dim : Nat) (cells : IdSet) (distance : Nat)
    (cell : EntityId) : Prop where
  reached : adjacency.Reached dim cells distance cell
  least : ∀ count, adjacency.Reached dim cells count cell → distance ≤ count

variable {adjacency : Adjacency} {dim count : Nat} {cells : IdSet} {cell : EntityId}

theorem reached_zero_iff : adjacency.Reached dim cells 0 cell ↔ cell ∈ cells := by
  constructor
  · rintro ⟨base, inside, walk⟩
    cases walk with
    | stay => exact inside
  · intro inside
    exact ⟨cell, inside, .stay cell⟩

theorem reached_succ_iff : adjacency.Reached dim cells (count + 1) cell ↔
    ∃ middle, adjacency.Reached dim cells count middle ∧
      cell ∈ adjacency.neighbors (.singleton middle) dim := by
  constructor
  · rintro ⟨base, inside, walk⟩
    cases walk with
    | step front neighbor => exact ⟨_, ⟨base, inside, front⟩, neighbor⟩
  · rintro ⟨middle, ⟨base, inside, front⟩, neighbor⟩
    exact ⟨base, inside, front.step neighbor⟩

theorem AtDistance.outside (far : adjacency.AtDistance dim cells (count + 1) cell) :
    cell ∉ cells := by
  intro inside
  exact absurd (far.least 0 (reached_zero_iff.2 inside)) (Nat.not_succ_le_zero count)

theorem atDistance_one_iff : adjacency.AtDistance dim cells 1 cell ↔
    adjacency.Reached dim cells 1 cell ∧ cell ∉ cells := by
  constructor
  · intro near
    constructor
    · exact near.reached
    · exact near.outside
  · rintro ⟨reached, outside⟩
    constructor
    · exact reached
    · intro count other
      cases count with
      | zero => exact absurd (reached_zero_iff.1 other) outside
      | succ count => exact Nat.succ_le_succ (Nat.zero_le count)

theorem atDistance_two_iff : adjacency.AtDistance dim cells 2 cell ↔
    adjacency.Reached dim cells 2 cell ∧ cell ∉ cells ∧ ¬ adjacency.Reached dim cells 1 cell := by
  constructor
  · intro beyond
    refine ⟨beyond.reached, beyond.outside, ?_⟩
    intro near
    exact absurd (beyond.least 1 near) (by decide)
  · rintro ⟨reached, outside, far⟩
    constructor
    · exact reached
    · intro count other
      cases count with
      | zero => exact absurd (reached_zero_iff.1 other) outside
      | succ count =>
          cases count with
          | zero => exact absurd other far
          | succ count => exact Nat.le_add_left 2 count

namespace Additive

variable (additive : adjacency.Additive)

include additive

theorem mem_neighbors_iff : cell ∈ adjacency.neighbors cells dim ↔
    adjacency.Reached dim cells 1 cell := by
  rw [additive, reached_succ_iff]
  simp only [reached_zero_iff]

theorem mem_closure_iff : cell ∈ adjacency.closure cells dim ↔
    cell ∈ cells ∨ adjacency.Reached dim cells 1 cell := by
  rw [closure, SortedSet.mem_union, additive.mem_neighbors_iff]

/-- The first ring is at distance 1. -/
theorem mem_closure_sdiff_iff : cell ∈ adjacency.closure cells dim \ cells ↔
    adjacency.AtDistance dim cells 1 cell := by
  rw [SortedSet.mem_sdiff, additive.mem_closure_iff, atDistance_one_iff]
  constructor
  · rintro ⟨inside | reached, outside⟩
    · exact absurd inside outside
    · exact ⟨reached, outside⟩
  · rintro ⟨reached, outside⟩
    exact ⟨.inr reached, outside⟩

/-- The second ring is at distance 2: what lies before a cell of it is not in the set, or the cell were
in the first ring. -/
theorem mem_closure_closure_sdiff_iff :
    cell ∈ adjacency.closure (adjacency.closure cells dim \ cells) dim \
        adjacency.closure cells dim ↔
      adjacency.AtDistance dim cells 2 cell := by
  rw [SortedSet.mem_sdiff, additive.mem_closure_iff, additive.mem_closure_iff, atDistance_two_iff,
    not_or]
  constructor
  · rintro ⟨near | beyond, outside, far⟩
    · exact absurd (atDistance_one_iff.1 (additive.mem_closure_sdiff_iff.1 near)).1 far
    · rcases reached_succ_iff.1 beyond with ⟨middle, near, neighbor⟩
      have between := additive.mem_closure_sdiff_iff.1 (reached_zero_iff.1 near)
      exact ⟨reached_succ_iff.2 ⟨middle, between.reached, neighbor⟩, outside, far⟩
  · rintro ⟨reached, outside, far⟩
    refine ⟨.inr ?_, outside, far⟩
    rcases reached_succ_iff.1 reached with ⟨middle, near, neighbor⟩
    have apart : middle ∉ cells := fun inside =>
      far (reached_succ_iff.2 ⟨middle, reached_zero_iff.2 inside, neighbor⟩)
    have ring := additive.mem_closure_sdiff_iff.2 (atDistance_one_iff.2 ⟨near, apart⟩)
    exact reached_succ_iff.2 ⟨middle, reached_zero_iff.2 ring, neighbor⟩

end Additive

end Adjacency

theorem NeighborTable.additive_adjacency (table : NeighborTable) : table.adjacency.Additive := by
  intro cells dim other
  simp [adjacency, neighbors, SortedSet.mem_toList]

theorem VertexMesh.additive_adjacency (mesh : VertexMesh) : mesh.adjacency.Additive := by
  intro cells dim other
  simp [adjacency, mem_neighbors]

namespace Decomposition

variable {parts : Decomposition} {size : Rank} {patience : Patience} {seat : Seat} {cell : EntityId}

/-- A cell at some distance from the cells of a rank. -/
def AtDistance (parts : Decomposition) (seat : Seat) (distance : Nat) (cell : EntityId) : Prop :=
  (parts.adjacency seat).AtDistance parts.config.thruDim (parts.primary seat) distance cell

/-- A cell at distance 1 or 2. -/
def Near (parts : Decomposition) (seat : Seat) (cell : EntityId) : Prop :=
  parts.AtDistance seat 1 cell ∨ parts.AtDistance seat 2 cell

/-- Every cell at distance 1 or 2 from a rank's cells has one owner. -/
def RingsOwned (parts : Decomposition) (size : Rank) : Prop :=
  ∀ seat : Seat, seat.size = size → ∀ cell, parts.Near seat cell →
    ∃ owner, SoleOwner size parts.primary cell owner

/-- The coloring of a rank's cells. -/
def colorCells (parts : Decomposition) (seat : Seat) : Collective PrimaryHalo :=
  PrimaryHalo.color seat (parts.adjacency seat) (parts.primary seat) parts.config

/-- What ranks have after their cells have been colored: the rings are the cells at distance 1 and 2, and
the ghosts are the first ring or both, as the settings say. -/
structure RingsShown (parts : Decomposition) (size : Rank) (halos : Seat → PrimaryHalo) : Prop where
  nearest : ∀ seat : Seat, seat.size = size → ∀ cell,
    cell ∈ (halos seat).nearest ↔ parts.AtDistance seat 1 cell
  nextNearest : ∀ seat : Seat, seat.size = size → ∀ cell,
    cell ∈ (halos seat).nextNearest ↔ parts.AtDistance seat 2 cell
  ghosts : ∀ seat : Seat, seat.size = size → ∀ cell,
    (∃ record ∈ (halos seat).coloring.ghost, record.id = cell) ↔
      parts.AtDistance seat 1 cell ∨
        parts.config.ghostDepth = .nextNearest ∧ parts.AtDistance seat 2 cell

theorem held_nearest (held : Held size parts.rings) : Held size parts.nearest :=
  held.mono fun _ _ near => SortedSet.mem_union.2 (.inl near)

section Additive

variable (additive : ∀ seat, (parts.adjacency seat).Additive)

include additive

theorem mem_nearest_iff : cell ∈ parts.nearest seat ↔ parts.AtDistance seat 1 cell :=
  (additive seat).mem_closure_sdiff_iff

theorem mem_nextNearest_iff : cell ∈ parts.nextNearest seat ↔ parts.AtDistance seat 2 cell :=
  (additive seat).mem_closure_closure_sdiff_iff

theorem mem_rings_iff : cell ∈ parts.rings seat ↔ parts.Near seat cell := by
  rw [rings, SortedSet.mem_union, mem_nearest_iff additive, mem_nextNearest_iff additive, Near]

theorem mem_ghostRings_iff : cell ∈ parts.ghostRings seat ↔
    parts.AtDistance seat 1 cell ∨
      parts.config.ghostDepth = .nextNearest ∧ parts.AtDistance seat 2 cell := by
  rw [ghostRings]
  cases parts.config.ghostDepth with
  | nearest => simp [mem_nearest_iff additive]
  | nextNearest => simp [mem_rings_iff additive, Near]

theorem ringsOwned_of_colorable (colorable : parts.Colorable size) : parts.RingsOwned size := by
  intro seat inGroup cell near
  exact colorable.rings.owners seat inGroup cell ((mem_rings_iff additive).2 near)

theorem colorable_of_ringsOwned (held : Held size parts.rings) (owned : parts.RingsOwned size) :
    parts.Colorable size := by
  constructor
  · apply (held_nearest held).resolvable
    intro user inGroup id near
    exact owned user inGroup id (.inl ((mem_nearest_iff additive).1 near))
  · apply held.resolvable
    intro user inGroup id ring
    exact owned user inGroup id ((mem_rings_iff additive).1 ring)

/-- All of the rings that are to become ghosts do, since their owners are other ranks. -/
theorem exists_ghost_iff (colorable : parts.Colorable size) (inGroup : seat.size = size) :
    (∃ record ∈ (parts.cellColoring size seat).ghost, record.id = cell) ↔
      cell ∈ parts.ghostRings seat := by
  constructor
  · rintro ⟨record, ghost, rfl⟩
    rcases Coloring.mem_ghost_assemble.1 ghost with ⟨owner, _, id, copied, rfl⟩
    exact (mem_copiesOf.1 copied).2.1
  · intro ring
    have near : parts.Near seat cell := by
      cases (mem_ghostRings_iff additive).1 ring with
      | inl first => exact .inl first
      | inr second => exact .inr second.2
    rcases ringsOwned_of_colorable additive colorable seat inGroup cell near with ⟨owner, sole⟩
    have apart : owner ≠ seat := by
      rintro rfl
      cases near with
      | inl first => exact Adjacency.AtDistance.outside first sole.owns
      | inr second => exact Adjacency.AtDistance.outside second sole.owns
    have copied : cell ∈ parts.cellCopies seat owner :=
      mem_copiesOf.2 ⟨apart, ring, sole.owns⟩
    exact ⟨_, Coloring.mem_ghost_assemble.2 ⟨owner, sole.inGroup, cell, copied, rfl⟩, rfl⟩

theorem ringsShown_halo (colorable : parts.Colorable size) {halos : Seat → PrimaryHalo}
    (same : ∀ seat : Seat, seat.size = size → parts.halo size seat = halos seat) :
    parts.RingsShown size halos := by
  constructor
  · intro seat inGroup cell
    rw [← same seat inGroup]
    exact mem_nearest_iff additive
  · intro seat inGroup cell
    rw [← same seat inGroup]
    exact mem_nextNearest_iff additive
  · intro seat inGroup cell
    rw [← same seat inGroup, PrimaryHalo.coloring_halo, ← mem_ghostRings_iff additive]
    exact exists_ghost_iff additive colorable inGroup

/-- If a cell near a rank lacks an owner or has several, some rank asks for such a cell and says the truth
about it.  A rank that leaves after the first request does so with such an error; if none does, the
second request tells. -/
theorem exists_fails (held : Held size parts.rings) (unowned : ¬ parts.RingsOwned size) :
    ∃ seat : Seat, seat.size = size ∧ ∃ error, Fails size parts.colorCells seat error ∧
      ∃ cell, parts.Near seat cell ∧ Misowned size parts.primary cell error := by
  have split : parts.colorCells = fun seat => _ := funext (PrimaryHalo.color_eq parts)
  have overlaps := @Gather.settles_overlaps size Tags.overlaps parts.nearest
    fun seat inGroup => (held_nearest held).fits_request inGroup
  have near := @settles_resolve size Tags.owners parts.primary _ (held_nearest held)
  have all := @settles_resolve size Tags.owners parts.primary _ held
  rw [split]
  cases outcomeOf_cases size parts.primary parts.nearest with
  | inr failure =>
      rcases failure with ⟨seat, inGroup, error, failed, cell, requested, misowned⟩
      refine ⟨seat, inGroup, error, ?_, cell, ?_, misowned⟩
      · exact overlaps.fails_next (near.fails inGroup failed)
      · exact .inl ((mem_nearest_iff additive).1 requested)
  | inl nearOwned =>
      have nearSettles := near.congr (fun _ _ => rfl)
        fun seat inGroup => (nearOwned seat inGroup).1.symm
      cases outcomeOf_cases size parts.primary parts.rings with
      | inr failure =>
          rcases failure with ⟨seat, inGroup, error, failed, cell, requested, misowned⟩
          refine ⟨seat, inGroup, error, ?_, cell, ?_, misowned⟩
          · exact overlaps.fails_next (nearSettles.fails_next (all.fails inGroup failed))
          · exact (mem_rings_iff additive).1 requested
      | inl allOwned =>
          apply absurd _ unowned
          intro seat inGroup cell ring
          exact (allOwned seat inGroup).2 cell ((mem_rings_iff additive).2 ring)

end Additive

/-- The coloring of cells succeeds on all ranks exactly when every cell at distance 1 or 2 from a rank's
cells has one owner; then these are the rings.  Otherwise some rank fails, under any schedule, and says
truly of such a cell who claims it.  Memory is to hold the locations of the cells in the rings. -/
theorem colorCells_succeeds_iff (size : Rank) :
    (∀ table : NeighborTable, table.adjacency.Additive) ∧
    (∀ mesh : VertexMesh, mesh.adjacency.Additive) ∧
    ∀ parts : Decomposition, (∀ seat, (parts.adjacency seat).Additive) → Held size parts.rings →
      ((∃ halos, Succeeds size parts.colorCells halos) ↔ parts.RingsOwned size) ∧
      (∀ (patience : Patience) (halos : Seat → PrimaryHalo),
        Completes patience size parts.colorCells halos →
          parts.RingsOwned size ∧ parts.RingsShown size halos) ∧
      (¬ parts.RingsOwned size →
        ∃ seat : Seat, seat.size = size ∧ ∃ error, Fails size parts.colorCells seat error ∧
          ∃ cell, parts.Near seat cell ∧ Misowned size parts.primary cell error) := by
  refine ⟨NeighborTable.additive_adjacency, VertexMesh.additive_adjacency, ?_⟩
  intro parts additive held
  have shown : ∀ (patience : Patience) (halos : Seat → PrimaryHalo),
      Completes patience size parts.colorCells halos →
        parts.RingsOwned size ∧ parts.RingsShown size halos := by
    intro patience halos completes
    rcases completes_color_iff.1 completes with ⟨colorable, same⟩
    exact ⟨ringsOwned_of_colorable additive colorable, ringsShown_halo additive colorable same⟩
  refine ⟨⟨?_, ?_⟩, shown, exists_fails additive held⟩
  · rintro ⟨halos, succeeds⟩
    exact (shown .unlimited halos succeeds.completes).1
  · intro owned
    have colorable := colorable_of_ringsOwned additive held owned
    exact ⟨parts.halo size, (completes_color_iff.2 ⟨colorable, fun _ _ => rfl⟩).succeeds⟩

open VertexMesh in
/-- Two cells that share an edge, of which one belongs to nobody. -/
def halfOwned : Decomposition :=
  (ofCells 2 twoCells).divide (fun seat => if seat.rank = 0 then .singleton 0 else ∅) {}

open VertexMesh in
theorem not_ringsOwned_halfOwned : ¬ halfOwned.RingsOwned 2 := by
  intro owned
  let first : Seat := ⟨0, 2, by decide⟩
  have near : halfOwned.Near first 1 := by
    left
    apply (mem_nearest_iff fun _ => additive_adjacency _).1
    decide +kernel
  rcases owned first rfl 1 near with ⟨owner, sole⟩
  have nobody : ∀ other ∈ Seat.all 2, (1 : EntityId) ∉ halfOwned.primary other := by
    decide +kernel
  exact nobody owner (Seat.mem_all.2 sole.inGroup) sole.owns

open VertexMesh in
/-- With a cell on each of two ranks the coloring succeeds, and with the second cell on no rank some rank
fails. -/
theorem colorCells_succeeds_iff_twoCells :
    (∃ halos, Succeeds 2 pair.colorCells halos ∧ pair.RingsShown 2 halos) ∧
    ∃ seat : Seat, seat.size = 2 ∧ ∃ error, Fails 2 halfOwned.colorCells seat error ∧
      ∃ cell, halfOwned.Near seat cell ∧ Misowned 2 halfOwned.primary cell error := by
  have heldPair : ∀ user ∈ Seat.all 2, (pair.rings user).size * 24 ≤ maxAllocationBytes := by
    decide +kernel
  have heldHalf : ∀ user ∈ Seat.all 2, (halfOwned.rings user).size * 24 ≤ maxAllocationBytes := by
    decide +kernel
  have ofPair := (colorCells_succeeds_iff 2).2.2 pair (fun _ => additive_adjacency _)
    fun user inGroup => heldPair user (Seat.mem_all.2 inGroup)
  have ofHalf := (colorCells_succeeds_iff 2).2.2 halfOwned (fun _ => additive_adjacency _)
    fun user inGroup => heldHalf user (Seat.mem_all.2 inGroup)
  constructor
  · have colorable : pair.Colorable 2 :=
      colorable_of_closed faithful_twoCells inMemory_twoCells disjoint_pair closed_pair
    have owned := ringsOwned_of_colorable (fun _ => additive_adjacency _) colorable
    rcases ofPair.1.2 owned with ⟨halos, succeeds⟩
    exact ⟨halos, succeeds, (ofPair.2.1 .unlimited halos succeeds.completes).2⟩
  · exact ofHalf.2.2 not_ringsOwned_halfOwned

end Decomposition

end Subdomain

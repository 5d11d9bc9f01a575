import Subdomain.Proofs.Halo.Claims
import Subdomain.Proofs.Mesh.VertexMesh

/-!
# Owners of vertices

When the cells of a mesh are divided among ranks, a vertex belongs to the lowest rank that owns a cell
with it.  Every rank that has the vertex in its closure works out the same owner, because no answer is
given before the owners of all cells around the vertex are known.  Through dimension 0 they always are.
-/

namespace Subdomain

open Exchange Subdomain.Group Ownership

namespace Decomposition

variable (parts : Decomposition) (size : Rank)

/-- No cell is owned twice. -/
def Disjoint : Prop :=
  ∀ seat other : Seat, seat.size = size → other.size = size →
    ∀ cell ∈ parts.primary seat, cell ∈ parts.primary other → seat = other

/-- All neighbors of owned cells are owned. -/
def Closed : Prop :=
  ∀ seat : Seat, seat.size = size →
    ∀ cell ∈ (parts.adjacency seat).neighbors (parts.primary seat) parts.config.thruDim,
      ∃ owner : Seat, owner.size = size ∧ cell ∈ parts.primary owner

end Decomposition

namespace VertexMesh

/-- A mesh of which every rank of a group owns some cells. -/
def divide (mesh : VertexMesh) (primary : Seat → IdSet) (config : ColoringConfig) :
    Decomposition where
  adjacency _ := mesh.adjacency
  primary := primary
  config := config

/-- What the vertices of a divided mesh are derived from. -/
def vertices (mesh : VertexMesh) (primary : Seat → IdSet) (config : ColoringConfig) (size : Rank) :
    Derivation :=
  (mesh.divide primary config).derivation size 0

/-- The lowest rank that owns a cell with a vertex. -/
structure LeastOwner (mesh : VertexMesh) (size : Rank) (primary : Seat → IdSet) (vertex : EntityId)
    (owner : Seat) : Prop where
  inGroup : owner.size = size
  owns : ∃ cell ∈ primary owner, vertex ∈ mesh.verticesOf cell
  least : ∀ other : Seat, other.size = size → ∀ cell ∈ primary other,
    vertex ∈ mesh.verticesOf cell → owner.rank ≤ other.rank

variable {mesh : VertexMesh} {primary : Seat → IdSet} {config : ColoringConfig} {size : Rank}
  {seat owner other : Seat} {vertex cell : EntityId}

theorem LeastOwner.unique (first : LeastOwner mesh size primary vertex owner)
    (second : LeastOwner mesh size primary vertex other) : owner = other := by
  rcases first.owns with ⟨cell, owned, has⟩
  rcases second.owns with ⟨otherCell, otherOwned, otherHas⟩
  apply Seat.eq_of_rank (first.inGroup.trans second.inGroup.symm)
  apply UInt64.le_antisymm
  · exact first.least other second.inGroup otherCell otherOwned otherHas
  · exact second.least owner first.inGroup cell owned has

theorem referencers_divide :
    ((mesh.divide primary config).adjacency seat).referencers 0 vertex = .ok (mesh.cellsOf vertex) :=
  rfl

theorem mem_entities :
    vertex ∈ (mesh.vertices primary config size).entities seat ↔
      ∃ cell ∈ (mesh.divide primary config).closure seat, vertex ∈ mesh.verticesOf cell := by
  have entities : (mesh.vertices primary config size).entities seat =
      .ofList (((mesh.divide primary config).closure seat).toList.flatMap mesh.verticesOf) := rfl
  simp [entities, SortedSet.mem_toList]

/-! ## All ranks work out the same owner -/

/-- Every rank can tell who owns the vertices that it references. -/
def AllClaimed (mesh : VertexMesh) (primary : Seat → IdSet) (config : ColoringConfig)
    (size : Rank) : Prop :=
  ∀ seat : Seat, seat.size = size → ∀ vertex ∈ (mesh.vertices primary config size).entities seat,
    Derived.claim mesh.adjacency ((mesh.divide primary config).halo size seat) seat.rank 0 vertex =
      .ok ((mesh.vertices primary config size).claim seat vertex)

section Owner

variable (faithful : mesh.Faithful) (disjoint : (mesh.divide primary config).Disjoint size)
  (colorable : (mesh.divide primary config).Colorable size)
  (claimed : mesh.AllClaimed primary config size)

include faithful disjoint colorable claimed

theorem exists_leastOwner (inGroup : seat.size = size)
    (references : vertex ∈ (mesh.vertices primary config size).entities seat) :
    ∃ owner, LeastOwner mesh size primary vertex owner ∧
      ((mesh.vertices primary config size).claim seat vertex).owner =
        owner.rank := by
  have told := Decomposition.claim_tells colorable inGroup referencers_divide
    (claimed seat inGroup vertex references)
  rcases told.attained with ⟨owner, ownerInGroup, owns, cell, around, owned⟩
  exists owner
  constructor
  · constructor
    · exact ownerInGroup
    · exact ⟨cell, owned, (faithful cell vertex).1 around⟩
    · intro other otherInGroup otherCell otherOwned has
      rcases told.least otherCell ((faithful otherCell vertex).2 has) with
        ⟨same, sameInGroup, sameOwned, least⟩
      rw [disjoint other same otherInGroup sameInGroup otherCell otherOwned sameOwned, ← owns]
      exact least
  · exact owns

theorem claim_eq_leastOwner (inGroup : seat.size = size)
    (references : vertex ∈ (mesh.vertices primary config size).entities seat)
    (least : LeastOwner mesh size primary vertex owner) :
    ((mesh.vertices primary config size).claim seat vertex).owner = owner.rank := by
  rcases exists_leastOwner faithful disjoint colorable claimed inGroup references with
    ⟨other, otherLeast, owns⟩
  rw [owns, otherLeast.unique least]

/-- Of all ranks the lowest that references a vertex has it in its primary set, and no other has. -/
theorem mem_primary_iff_leastOwner (inGroup : seat.size = size)
    (least : LeastOwner mesh size primary vertex owner) :
    vertex ∈ (mesh.vertices primary config size).primary seat ↔ seat = owner := by
  rw [Derivation.mem_primary]
  constructor
  · rintro ⟨references, own⟩
    rw [claim_eq_leastOwner faithful disjoint colorable claimed inGroup references least] at own
    exact (Seat.eq_of_rank (least.inGroup.trans inGroup.symm) own).symm
  · rintro rfl
    rcases least.owns with ⟨cell, owned, has⟩
    have references : vertex ∈ (mesh.vertices primary config size).entities seat :=
      mem_entities.2 ⟨cell, Decomposition.mem_closure_of_primary owned, has⟩
    exact ⟨references,
      claim_eq_leastOwner faithful disjoint colorable claimed inGroup references least⟩

/-- A rank copies what it references and does not own. -/
theorem exists_ghost_iff (inGroup : seat.size = size)
    (foreign : vertex ∉ (mesh.vertices primary config size).primary seat) :
    (∃ ghost ∈ ((mesh.vertices primary config size).coloring size seat).ghost,
      ghost.id = vertex) ↔
      ∃ cell ∈ (mesh.divide primary config).closure seat,
        vertex ∈ mesh.verticesOf cell := by
  have entities : vertex ∈ (mesh.vertices primary config size).entities seat ↔
      ∃ cell ∈ (mesh.divide primary config).closure seat, vertex ∈ mesh.verticesOf cell := mem_entities
  rw [← entities]
  constructor
  · rintro ⟨ghost, member, rfl⟩
    rcases Coloring.mem_ghost_assemble.1 member with ⟨owner, _, id, copied, rfl⟩
    exact (Derivation.mem_copies.1 copied).1
  · intro references
    rcases exists_leastOwner faithful disjoint colorable claimed inGroup references with
      ⟨owner, least, owns⟩
    have apart : owner.rank ≠ seat.rank := fun same =>
      foreign (Derivation.mem_primary.2 ⟨references, owns.trans same⟩)
    have copied : vertex ∈ (mesh.vertices primary config size).copies seat owner :=
      Derivation.mem_copies.2 ⟨references, owns, apart⟩
    exact ⟨_, Coloring.mem_ghost_assemble.2 ⟨owner, least.inGroup, vertex, copied, rfl⟩, rfl⟩

/-- What is requested from a rank is owned there. -/
theorem mem_primary_of_mem_copies (ownerInGroup : owner.size = size) (inGroup : seat.size = size)
    (copied : vertex ∈ (mesh.vertices primary config size).copies seat owner) :
    vertex ∈ (mesh.vertices primary config size).primary owner := by
  rcases Derivation.mem_copies.1 copied with ⟨references, owns, _⟩
  rcases exists_leastOwner faithful disjoint colorable claimed inGroup references with
    ⟨other, least, otherOwns⟩
  apply (mem_primary_iff_leastOwner faithful disjoint colorable claimed ownerInGroup least).2
  exact Seat.eq_of_rank (ownerInGroup.trans least.inGroup.symm) (owns.symm.trans otherOwns)

/-- A rank that is known to reference an owned vertex has it in its closure, and so requests it. -/
theorem mem_sharersOf_of_mem_users (inGroup : owner.size = size)
    (owned : vertex ∈ (mesh.vertices primary config size).primary owner) {rank : Rank}
    (user : rank ∈ ((mesh.vertices primary config size).claim owner vertex).users) :
    rank ∈ sharersOf size (mesh.vertices primary config size).copies owner vertex := by
  rcases Derivation.mem_primary.1 owned with ⟨references, owns⟩
  have told := Decomposition.claim_tells colorable inGroup referencers_divide
    (claimed owner inGroup vertex references)
  rcases told.users rank user with ⟨cell, around, other, otherInGroup, sameRank, apart, inside⟩
  have otherReferences : vertex ∈ (mesh.vertices primary config size).entities other :=
    mem_entities.2 ⟨cell, inside, (faithful cell vertex).1 around⟩
  rcases exists_leastOwner faithful disjoint colorable claimed inGroup references with
    ⟨least, isLeast, leastOwns⟩
  rw [mem_sharersOf]
  refine ⟨other, otherInGroup, sameRank, Derivation.mem_copies.2 ⟨otherReferences, ?_, ?_⟩⟩
  · rw [claim_eq_leastOwner faithful disjoint colorable claimed otherInGroup otherReferences isLeast,
      ← leastOwns, owns]
  · intro same
    exact apart (Seat.eq_of_rank (otherInGroup.trans inGroup.symm) same.symm)

end Owner

/-! ## Closed divisions -/

section Closed

variable {request : Seat → IdSet} (faithful : mesh.Faithful) (inMemory : mesh.InMemory)
  (disjoint : (mesh.divide primary config).Disjoint size)
  (closed : (mesh.divide primary config).Closed size)

include disjoint closed in
/-- A neighbor of an owned cell has one owner. -/
theorem exists_soleOwner (inGroup : seat.size = size) (owned : cell ∈ primary seat)
    {neighbor : EntityId} (adjacent : neighbor ∈ mesh.neighborsOf cell config.thruDim) :
    ∃ owner, SoleOwner size primary neighbor owner := by
  rcases closed seat inGroup neighbor (mem_neighbors.2 ⟨cell, owned, adjacent⟩) with
    ⟨owner, ownerInGroup, owns⟩
  exists owner
  constructor
  · exact ownerInGroup
  · exact owns
  · intro other otherInGroup otherOwns
    exact disjoint other owner otherInGroup ownerInGroup neighbor otherOwns owns

include inMemory in
/-- Requests for cells of the mesh can be answered if each has an owner. -/
theorem resolvable_of_size_le
    (length : ∀ user : Seat, user.size = size → (request user).toList.length ≤ mesh.numCells)
    (owners : ∀ user : Seat, user.size = size → ∀ id ∈ request user,
      ∃ owner, SoleOwner size primary id owner) : Resolvable size primary request := by
  apply Held.resolvable _ owners
  intro user inGroup
  exact Nat.le_trans (Nat.mul_le_mul_right 24 (length user inGroup)) inMemory.cells

include faithful inMemory disjoint closed in
/-- The cells of a closed division can be colored. -/
theorem colorable_of_closed : (mesh.divide primary config).Colorable size := by
  have nearest : ∀ user : Seat, ∀ id ∈ (mesh.divide primary config).nearest user,
      ∃ cell ∈ primary user, id ∈ mesh.neighborsOf cell config.thruDim := by
    intro user id near
    rcases SortedSet.mem_sdiff.1 near with ⟨inside, foreign⟩
    exact mem_neighbors.1 ((SortedSet.mem_union.1 inside).resolve_left foreign)
  have nearestOwners : ∀ user : Seat, user.size = size →
      ∀ id ∈ (mesh.divide primary config).nearest user, ∃ owner, SoleOwner size primary id owner := by
    intro user inGroup id near
    rcases nearest user id near with ⟨cell, owned, adjacent⟩
    exact exists_soleOwner disjoint closed inGroup owned adjacent
  have next : ∀ user : Seat, ∀ id ∈ (mesh.divide primary config).nextNearest user,
      ∃ cell ∈ (mesh.divide primary config).nearest user,
        id ∈ mesh.neighborsOf cell config.thruDim := by
    intro user id far
    rcases SortedSet.mem_sdiff.1 far with ⟨inside, outside⟩
    cases SortedSet.mem_union.1 inside with
    | inl near => exact absurd (Decomposition.mem_closure_of_nearest near) outside
    | inr neighbor => exact mem_neighbors.1 neighbor
  constructor
  · apply resolvable_of_size_le inMemory _ nearestOwners
    intro user _
    apply size_le_numCells faithful
    intro id near
    rcases nearest user id near with ⟨cell, _, adjacent⟩
    exact ⟨cell, adjacent⟩
  · apply resolvable_of_size_le inMemory
    · intro user _
      apply size_le_numCells faithful
      intro id ring
      cases SortedSet.mem_union.1 ring with
      | inl near =>
          rcases nearest user id near with ⟨cell, _, adjacent⟩
          exact ⟨cell, adjacent⟩
      | inr far =>
          rcases next user id far with ⟨cell, _, adjacent⟩
          exact ⟨cell, adjacent⟩
    · intro user inGroup id ring
      cases SortedSet.mem_union.1 ring with
      | inl near => exact nearestOwners user inGroup id near
      | inr far =>
          rcases next user id far with ⟨cell, near, adjacent⟩
          rcases nearestOwners user inGroup cell near with ⟨owner, sole⟩
          exact exists_soleOwner disjoint closed sole.inGroup sole.owns adjacent

/-- Through dimension 0, the rings hold every cell around a vertex that is referenced. -/
theorem mem_primary_or_rings (zero : config.thruDim = 0)
    (references : vertex ∈ (mesh.vertices primary config size).entities seat)
    (around : cell ∈ mesh.cellsOf vertex) :
    cell ∈ primary seat ∨ cell ∈ (mesh.divide primary config).rings seat := by
  rcases mem_entities.1 references with ⟨base, inside, has⟩
  have settled : cell ∈ (mesh.divide primary config).closure seat →
      cell ∈ primary seat ∨ cell ∈ (mesh.divide primary config).rings seat := by
    intro inside
    cases Decomposition.mem_primary_or_nearest inside with
    | inl owned => exact .inl owned
    | inr near => exact .inr (SortedSet.mem_union.2 (.inl near))
  by_cases same : cell = base
  · exact settled (same ▸ inside)
  · have adjacent : cell ∈ mesh.neighborsOf base config.thruDim := by
      rw [zero]
      exact mem_neighborsOf_zero same has around
    cases Decomposition.mem_primary_or_nearest inside with
    | inl owned =>
        exact settled (SortedSet.mem_union.2 (.inr (mem_neighbors.2 ⟨base, owned, adjacent⟩)))
    | inr near =>
        have neighbor : cell ∈ mesh.neighbors ((mesh.divide primary config).nearest seat)
            config.thruDim := mem_neighbors.2 ⟨base, near, adjacent⟩
        have outward : cell ∈ (mesh.divide primary config).closure seat ∨
            cell ∈ (mesh.divide primary config).nextNearest seat :=
          Decomposition.mem_nearest_or_nextNearest neighbor
        cases outward with
        | inl inside => exact settled inside
        | inr far => exact .inr (SortedSet.mem_union.2 (.inr far))

include faithful in
theorem allClaimed_of_zero (colorable : (mesh.divide primary config).Colorable size)
    (zero : config.thruDim = 0) : mesh.AllClaimed primary config size := by
  intro seat inGroup vertex references
  have referenced : ∃ cell, cell ∈ mesh.cellsOf vertex := by
    rcases mem_entities.1 references with ⟨cell, _, has⟩
    exact ⟨cell, (faithful cell vertex).2 has⟩
  have known : ∀ cell ∈ mesh.cellsOf vertex,
      cell ∈ primary seat ∨ cell ∈ (mesh.divide primary config).rings seat :=
    fun cell around => mem_primary_or_rings zero references around
  rcases Decomposition.claim_succeeds colorable inGroup referencers_divide
    referenced known with ⟨claim, done⟩
  have same : claim = (mesh.vertices primary config size).claim seat vertex := Derived.claim_eq done
  exact same ▸ done

include faithful in
theorem length_copies_le (user owner : Seat) :
    ((mesh.vertices primary config size).copies user owner).toList.length ≤ mesh.numVertices := by
  apply size_le_numVertices faithful
  intro vertex copied
  rcases mem_entities.1 (Derivation.mem_copies.1 copied).1 with ⟨cell, _, has⟩
  exact ⟨cell, has⟩

include faithful inMemory disjoint closed in
/-- The vertices of a mesh that is divided through dimension 0 can be colored. -/
theorem derivable_of_zero (zero : config.thruDim = 0) :
    (mesh.vertices primary config size).Derivable size := by
  have colorable : (mesh.divide primary config).Colorable size :=
    colorable_of_closed faithful inMemory disjoint closed
  have claimed := allClaimed_of_zero faithful colorable zero
  constructor
  · intro seat _
    rfl
  · intro seat inGroup vertex references
    rcases exists_leastOwner faithful disjoint colorable claimed inGroup references with
      ⟨owner, least, owns⟩
    constructor
    · exact claimed seat inGroup vertex references
    · rw [owns, ← least.inGroup]
      exact owner.rank_lt
  · constructor
    · intro user owner _ _
      exact fits_of_length_le (length_copies_le faithful user owner) (by decide) inMemory.vertices
        (by decide)
    · intro owner user _ _
      have shorter := List.length_filterMap_le (fun id =>
        (((mesh.vertices primary config size).primary owner).numbering.get? id).map fun offset =>
          (⟨id, owner.rank, offset⟩ : Location))
        ((mesh.vertices primary config size).copies user owner).toList
      exact fits_of_length_le (Nat.le_trans shorter (length_copies_le faithful user owner))
        (by decide) inMemory.vertices (by decide)
    · intro owner user ownerInGroup userInGroup vertex copied
      exact mem_primary_of_mem_copies faithful disjoint colorable claimed ownerInGroup userInGroup
        copied
  · intro owner inGroup vertex owned rank user
    exact mem_sharersOf_of_mem_users faithful disjoint colorable claimed inGroup owned user

end Closed

theorem small_of_inMemory {dim : Nat} {cells : List (List EntityId)}
    (inMemory : (ofCells dim cells).InMemory) : cells.length ≤ UInt64.size := by
  have bound : cells.length * 24 ≤ 0x7FFFFFFFFFFFFFFF := inMemory.cells
  have size : UInt64.size = 0x10000000000000000 := rfl
  omega

/-- Let a mesh be divided so that no cell is owned twice and all neighbors of owned cells are owned.
Whenever its cells and then its vertices are colored on every rank, a vertex of an owned cell belongs
to the lowest rank that owns a cell with it and to no other, and of the ranks that do not own a vertex
those copy it that have it in the closure of their cells.  Through dimension 0 all ranks succeed,
however the messages travel. -/
theorem vertices_belong_to_least {dim : Nat} {cells : List (List EntityId)}
    (inMemory : (ofCells dim cells).InMemory)
    (disjoint : ((ofCells dim cells).divide primary config).Disjoint size)
    (closed : ((ofCells dim cells).divide primary config).Closed size) :
    (∀ (patience : Patience) (results : Seat → PrimaryHalo × Coloring × Summary),
      Completes patience size (((ofCells dim cells).divide primary config).colorWith 0) results →
        (∀ seat : Seat, seat.size = size → ∀ cell ∈ primary seat,
          ∀ vertex ∈ (ofCells dim cells).verticesOf cell,
            ∃ owner, LeastOwner (ofCells dim cells) size primary vertex owner ∧
              ∀ other : Seat, other.size = size →
                (vertex ∈ (results other).2.1.primary ↔ other = owner)) ∧
        ∀ seat : Seat, seat.size = size → ∀ vertex, vertex ∉ (results seat).2.1.primary →
          ((∃ ghost ∈ (results seat).2.1.ghost, ghost.id = vertex) ↔
            ∃ cell ∈ (ofCells dim cells).adjacency.closure (primary seat) config.thruDim,
              vertex ∈ (ofCells dim cells).verticesOf cell)) ∧
    (config.thruDim = 0 → ∃ results,
      Succeeds size (((ofCells dim cells).divide primary config).colorWith 0) results) := by
  have faithful : (ofCells dim cells).Faithful := faithful_ofCells (small_of_inMemory inMemory)
  constructor
  · intro patience results completes
    rcases Decomposition.completes_colorWith_iff.1 completes with ⟨colorable, derivable, same⟩
    have claimed : (ofCells dim cells).AllClaimed primary config size :=
      fun seat inGroup vertex references => (derivable.claims seat inGroup vertex references).1
    have coloring : ∀ seat : Seat, seat.size = size → (results seat).2.1 =
        ((ofCells dim cells).vertices primary config size).coloring size seat := by
      intro seat inGroup
      rw [← same seat inGroup]
      rfl
    constructor
    · intro seat inGroup cell owned vertex has
      have references : vertex ∈ ((ofCells dim cells).vertices primary config size).entities seat :=
        mem_entities.2 ⟨cell, Decomposition.mem_closure_of_primary owned, has⟩
      rcases exists_leastOwner faithful disjoint colorable claimed inGroup references with
        ⟨owner, least, _⟩
      exists owner
      constructor
      · exact least
      · intro other otherInGroup
        rw [coloring other otherInGroup, Derivation.coloring, Coloring.primary_assemble]
        exact mem_primary_iff_leastOwner faithful disjoint colorable claimed otherInGroup least
    · intro seat inGroup vertex
      rw [coloring seat inGroup]
      intro foreign
      rw [Derivation.coloring, Coloring.primary_assemble] at foreign
      exact exists_ghost_iff faithful disjoint colorable claimed inGroup foreign
  · intro zero
    have colorable := colorable_of_closed faithful inMemory disjoint closed
    have derivable := derivable_of_zero faithful inMemory disjoint closed zero
    exact ⟨_, Completes.succeeds (Decomposition.completes_colorWith_iff.2
      ⟨colorable, derivable, fun _ _ => rfl⟩)⟩

/-- Two quadrilaterals that share an edge. -/
def twoCells : List (List EntityId) := [[0, 1, 4, 3], [1, 2, 5, 4]]

/-- The two cells on two ranks. -/
def pair : Decomposition := (ofCells 2 twoCells).divide (fun seat => .singleton seat.rank) {}

theorem inMemory_twoCells : (ofCells 2 twoCells).InMemory := ⟨by decide, by decide⟩

theorem faithful_twoCells : (ofCells 2 twoCells).Faithful :=
  faithful_ofCells (small_of_inMemory inMemory_twoCells)

theorem disjoint_pair : pair.Disjoint 2 := by
  intro seat other inGroup otherInGroup cell owned otherOwned
  apply Seat.eq_of_rank (inGroup.trans otherInGroup.symm)
  exact (SortedSet.mem_singleton.1 owned).symm.trans (SortedSet.mem_singleton.1 otherOwned)

theorem closed_pair : pair.Closed 2 := by
  intro seat _ cell neighbor
  rcases mem_neighbors.1 neighbor with ⟨base, _, adjacent⟩
  rcases exists_vertex_of_mem_neighborsOf adjacent with ⟨vertex, _, around⟩
  have inside : cell.toNat < 2 := toNat_lt_numCells ((faithful_twoCells cell vertex).1 around)
  exact ⟨⟨cell, 2, UInt64.lt_iff_toNat_lt.2 inside⟩, rfl, SortedSet.mem_singleton.2 rfl⟩

/-- The vertex at one end of the shared edge belongs to one rank. -/
theorem vertices_belong_to_least_pair :
    ∃ results, Succeeds 2 (pair.colorWith 0) results ∧
      ∃ owner, LeastOwner (ofCells 2 twoCells) 2 pair.primary 4 owner ∧
        ∀ other : Seat, other.size = 2 → (4 ∈ (results other).2.1.primary ↔ other = owner) := by
  have least := vertices_belong_to_least inMemory_twoCells disjoint_pair closed_pair
  rcases least.2 rfl with ⟨results, succeeds⟩
  exists results
  constructor
  · exact succeeds
  · exact (least.1 .unlimited results succeeds.completes).1 ⟨1, 2, by decide⟩ rfl 1
      (SortedSet.mem_singleton.2 rfl) 4 (by decide)

end VertexMesh

end Subdomain

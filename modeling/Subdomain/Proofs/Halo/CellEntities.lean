import Subdomain.Proofs.Halo.Agreement

/-!
# Cells as derived entities

Cells can be colored in two ways: by asking all ranks for the owners of the rings, or as entities of
their own dimension, of which each rank works out the owners itself.  A cell references itself, so the
owner worked out is the one that was asked for, and the requests are those for the first ring.  The two
colorings are the same, record for record, even where primary sets overlap unnoticed.
-/

namespace Subdomain

open Exchange Subdomain.Group Ownership

/-- The entities of a dimension are the cells themselves. -/
structure Adjacency.CellsAt (adjacency : Adjacency) (dim : Nat) : Prop where
  entityClosure : ∀ cells, adjacency.entityClosure cells dim = .ok cells
  referencers : ∀ id, adjacency.referencers dim id = .ok (.singleton id)

theorem VertexMesh.cellsAt {mesh : VertexMesh} (solid : mesh.dim ≠ 0) :
    mesh.adjacency.CellsAt mesh.dim := by
  constructor
  · intro cells
    exact (if_neg solid).trans (if_pos rfl)
  · intro id
    exact (if_neg solid).trans (if_pos rfl)

/-! ## Group functions that agree within a group -/

section Congruence

variable {size : Rank} {primary otherPrimary : Seat → IdSet} {copies otherCopies : Seat → Seat → IdSet}
  (samePrimary : ∀ owner : Seat, owner.size = size → primary owner = otherPrimary owner)
  (sameCopies : ∀ user owner : Seat, user.size = size → owner.size = size →
    copies user owner = otherCopies user owner)

include samePrimary sameCopies in
theorem assemble_congr {seat : Seat} (inGroup : seat.size = size) :
    Coloring.assemble size primary copies seat = .assemble size otherPrimary otherCopies seat := by
  have originals : Coloring.originalAt size primary copies seat =
      Coloring.originalAt size otherPrimary otherCopies seat := by
    funext id
    rw [Coloring.originalAt, Coloring.originalAt, samePrimary seat inGroup,
      sharersOf_congr sameCopies inGroup]
  have ghosts : ghostsOf size primary copies seat = ghostsOf size otherPrimary otherCopies seat := by
    rw [ghostsOf, ghostsOf]
    congr 1
    apply List.flatMap_congr
    intro owner member
    have ownerInGroup := Seat.mem_all.1 member
    rw [sameCopies seat owner inGroup ownerInGroup]
    apply List.map_congr_left
    intro id _
    rw [recordAt, recordAt, samePrimary owner ownerInGroup]
  rw [Coloring.assemble, Coloring.assemble, samePrimary seat inGroup, originals, ghosts]

include samePrimary sameCopies in
theorem answerable_congr (answerable : Answerable size otherPrimary otherCopies) :
    Answerable size primary copies := by
  constructor
  · intro user owner userInGroup ownerInGroup
    rw [sameCopies user owner userInGroup ownerInGroup]
    exact answerable.requests user owner userInGroup ownerInGroup
  · intro owner user ownerInGroup userInGroup
    rw [offsetReply, samePrimary owner ownerInGroup, sameCopies user owner userInGroup ownerInGroup]
    exact answerable.replies owner user ownerInGroup userInGroup
  · intro owner user ownerInGroup userInGroup
    rw [samePrimary owner ownerInGroup, sameCopies user owner userInGroup ownerInGroup]
    exact answerable.owned owner user ownerInGroup userInGroup

end Congruence

/-- A shorter buffer fits where a longer one does. -/
theorem fits_mono {ρ : Type} [Record ρ] {shorter longer : List ρ}
    (length : shorter.length ≤ longer.length) (fitting : fits longer = true) :
    fits shorter = true := by
  simp only [fits, Bool.and_eq_true, decide_eq_true_eq] at fitting ⊢
  constructor
  · exact Nat.le_trans length fitting.1
  · exact Nat.le_trans (Nat.mul_le_mul_right _ length) fitting.2

/-- An owner replies to a request for offsets what it replies to one for owners. -/
theorem offsetReply_copiesOf {primary request : Seat → IdSet} {owner user : Seat}
    (apart : owner ≠ user) (sameSize : user.size = owner.size) :
    offsetReply primary (copiesOf primary request) owner user =
      replyTo primary request owner user := by
  have otherRank : user.rank ≠ owner.rank := fun same => apart (Seat.eq_of_rank sameSize same).symm
  have common : (request user ∩ primary owner).toList =
      (request user).toList.filter fun id => decide (id ∈ primary owner) := rfl
  rw [offsetReply, copiesOf, if_neg apart, replyTo, if_neg otherRank, common, List.filterMap_filter]
  apply List.filterMap_congr
  intro id _
  rw [locate?_eq, SortedSet.get?_numbering]
  by_cases owned : id ∈ primary owner <;> simp [owned]

/-- Where all ranks can be asked for owners, the owners can be asked for offsets: each request is part
of one that memory holds, and the replies are the same. -/
theorem answerable_of_resolvable {size : Rank} {primary request : Seat → IdSet}
    (resolvable : Resolvable size primary request) :
    Answerable size primary (copiesOf primary request) := by
  constructor
  · intro user owner userInGroup _
    rw [copiesOf]
    split
    · exact fits_nil
    · exact fits_mono (List.length_filter_le _ _) (resolvable.requests user userInGroup)
  · intro owner user ownerInGroup userInGroup
    by_cases same : owner = user
    · rw [offsetReply, copiesOf, if_pos same]
      exact fits_nil
    · rw [offsetReply_copiesOf same (userInGroup.trans ownerInGroup.symm)]
      exact resolvable.replies owner user ownerInGroup userInGroup
  · intro owner user _ _ id copied
    exact (mem_copiesOf.1 copied).2.2

/-! ## What a rank can tell about a cell -/

namespace Decomposition

variable {parts : Decomposition} {size : Rank} {seat : Seat} {cell : EntityId} {dim : Nat}

/-- The first rings of others do not count for an owned cell, which is in none of the rank's own. -/
theorem watchers_of_primary (owned : cell ∈ parts.primary seat) :
    parts.watchers size seat cell = ∅ := by
  ext rank
  apply Iff.intro _ (fun absurdity => absurd absurdity (SortedSet.not_mem_empty rank))
  intro watcher
  rw [watchers, SortedSet.mem_ofList, List.mem_map] at watcher
  rcases watcher with ⟨⟨_, common⟩, member, rfl⟩
  rw [List.mem_filter, decide_eq_true_eq] at member
  rcases member with ⟨member, inside⟩
  rcases Gather.get?_overlapsOf.1 (SortedMap.get?_eq_some_iff.2 member) with ⟨_, _, _, _, _, rfl⟩
  have near : cell ∈ parts.nearest seat := (SortedSet.mem_inter.1 inside).2
  exact absurd owned (SortedSet.mem_sdiff.1 near).2

/-- The users that a rank knows of an owned cell are those that asked for it in their first rings. -/
theorem getD_nearestUsers (owned : cell ∈ parts.primary seat) :
    ((parts.halo size seat).nearestUsers.get? cell).getD ∅ =
      sharersOf size (copiesOf parts.primary parts.nearest) seat cell := by
  cases unused : (sharersOf size (copiesOf parts.primary parts.nearest) seat cell).isEmpty with
  | false =>
      rw [get?_nearestUsers.2 ⟨⟨owned, rfl⟩, unused⟩]
      rfl
  | true =>
      have unlisted : (parts.halo size seat).nearestUsers.get? cell = none := by
        cases found : (parts.halo size seat).nearestUsers.get? cell with
        | none => rfl
        | some users =>
            rcases get?_nearestUsers.1 found with ⟨⟨_, rfl⟩, used⟩
            cases unused.symm.trans used
      rw [unlisted]
      ext rank
      simp [SortedSet.isEmpty_iff.1 unused]

/-- A rank tells of a cell that it owns the ranks that asked for it. -/
theorem claimThrough_primary (owned : cell ∈ parts.primary seat) :
    Derived.claimThrough (parts.halo size seat) seat.rank cell cell =
      .ok ⟨seat.rank, sharersOf size (copiesOf parts.primary parts.nearest) seat cell⟩ := by
  rw [claimThrough_eq, if_pos owned, getD_nearestUsers owned, watchers_of_primary owned]
  rfl

/-- A rank tells of a cell in its first ring the owner that answered. -/
theorem claimThrough_nearest (colorable : parts.Colorable size) (inGroup : seat.size = size)
    (near : cell ∈ parts.nearest seat) :
    ∃ owner, SoleOwner size parts.primary cell owner ∧ owner ≠ seat ∧ ∃ users,
      Derived.claimThrough (parts.halo size seat) seat.rank cell cell = .ok ⟨owner.rank, users⟩ := by
  rcases colorable.nearest.owners seat inGroup cell near with ⟨owner, sole⟩
  have foreign : cell ∉ parts.primary seat := (SortedSet.mem_sdiff.1 near).2
  have apart : owner ≠ seat := fun same => foreign (same ▸ sole.owns)
  have ring : cell ∈ parts.rings seat := SortedSet.mem_union.2 (.inl near)
  have copied := mem_copiesOf.2 ⟨apart, ring, sole.owns⟩
  have record := (get?_remote colorable inGroup).2 ⟨owner, sole.inGroup, copied, rfl⟩
  rw [claimThrough_eq, if_neg foreign, record]
  exact ⟨owner, sole, apart, _, rfl⟩

end Decomposition

namespace Derived

/-- No rank of a group stands for nobody. -/
theorem rank_ne_nobody (seat : Seat) : seat.rank ≠ nobody := by
  intro same
  exact absurd (same ▸ seat.rank_lt) (UInt64.not_lt.2 (le_nobody seat.size))

/-- A cell that only itself references is claimed as it tells. -/
theorem claim_of_singleton {adjacency : Adjacency} {halo : PrimaryHalo} {rank : Rank} {dim : Nat}
    {id : EntityId} (references : adjacency.referencers dim id = .ok (.singleton id)) {told : Claim}
    (tells : claimThrough halo rank id id = .ok told) (somebody : told.owner ≠ nobody) :
    claim adjacency halo rank dim id = .ok told := by
  have alone : combine [told] = told := by
    have owner : min nobody told.owner = told.owner :=
      UInt64.le_antisymm Std.min_le_right (Std.le_min_iff.2 ⟨le_nobody _, UInt64.le_refl _⟩)
    have users : ∅ ∪ told.users = told.users := by
      ext rank
      simp
    simp only [combine, List.foldl_cons, List.foldl_nil, owner, users]
  apply (claim_eq_ok_iff references).2
  exists [told]
  constructor
  · have once : (SortedSet.singleton id).toList = [id] := rfl
    rw [once, List.mapM_cons, tells]
    rfl
  · rw [alone]
    exact ⟨somebody, rfl⟩

end Derived

/-! ## The derived coloring -/

namespace Decomposition

variable {parts : Decomposition} {size : Rank} {dim : Nat}

theorem claim_derivation {seat : Seat} {id : EntityId} {claim : Derived.Claim}
    (claimed : Derived.claim (parts.adjacency seat) (parts.halo size seat) seat.rank dim id =
      .ok claim) : (parts.derivation size dim).claim seat id = claim :=
  (Derived.claim_eq claimed).symm

variable (cells : ∀ seat, (parts.adjacency seat).CellsAt dim) (colorable : parts.Colorable size)

include cells

theorem entities_derivation (seat : Seat) :
    (parts.derivation size dim).entities seat = parts.closure seat :=
  (Derived.entities_eq ((cells seat).entityClosure _)).symm

/-- An owned cell is claimed for its rank and those that asked for it. -/
theorem claim_primary {seat : Seat} {cell : EntityId} (owned : cell ∈ parts.primary seat) :
    Derived.claim (parts.adjacency seat) (parts.halo size seat) seat.rank dim cell =
      .ok ⟨seat.rank, sharersOf size (copiesOf parts.primary parts.nearest) seat cell⟩ :=
  Derived.claim_of_singleton ((cells seat).referencers cell) (claimThrough_primary owned)
    (Derived.rank_ne_nobody seat)

include colorable

/-- A cell of the first ring is claimed for its one owner. -/
theorem claim_nearest {seat : Seat} (inGroup : seat.size = size) {cell : EntityId}
    (near : cell ∈ parts.nearest seat) :
    ∃ owner, SoleOwner size parts.primary cell owner ∧ owner ≠ seat ∧ ∃ users,
      Derived.claim (parts.adjacency seat) (parts.halo size seat) seat.rank dim cell =
        .ok ⟨owner.rank, users⟩ := by
  rcases claimThrough_nearest colorable inGroup near with ⟨owner, sole, apart, users, told⟩
  exact ⟨owner, sole, apart, users, Derived.claim_of_singleton ((cells seat).referencers cell) told
    (Derived.rank_ne_nobody owner)⟩

/-- A rank derives the cells that it owns. -/
theorem primary_derivation (seat : Seat) (inGroup : seat.size = size) :
    (parts.derivation size dim).primary seat = parts.primary seat := by
  ext cell
  rw [Derivation.mem_primary, entities_derivation cells]
  constructor
  · rintro ⟨inside, owns⟩
    apply (mem_primary_or_nearest inside).resolve_right
    intro near
    rcases claim_nearest cells colorable inGroup near with ⟨owner, sole, apart, users, claimed⟩
    rw [claim_derivation claimed] at owns
    exact apart (Seat.eq_of_rank (sole.inGroup.trans inGroup.symm) owns)
  · intro owned
    rw [claim_derivation (claim_primary cells owned)]
    exact ⟨mem_closure_of_primary owned, rfl⟩

/-- A rank copies the cells of its first ring, each from the owner. -/
theorem copies_derivation (user owner : Seat) (userInGroup : user.size = size)
    (ownerInGroup : owner.size = size) :
    (parts.derivation size dim).copies user owner =
      copiesOf parts.primary parts.nearest user owner := by
  have sameSize : owner.size = user.size := ownerInGroup.trans userInGroup.symm
  ext cell
  rw [Derivation.mem_copies, entities_derivation cells, mem_copiesOf]
  constructor
  · rintro ⟨inside, owns, otherRank⟩
    have apart : owner ≠ user := fun same => otherRank (same ▸ rfl)
    cases mem_primary_or_nearest inside with
    | inl owned =>
        rw [claim_derivation (claim_primary cells owned)] at owns
        exact absurd owns.symm otherRank
    | inr near =>
        rcases claim_nearest cells colorable userInGroup near with ⟨sole, isSole, _, _, claimed⟩
        rw [claim_derivation claimed] at owns
        have same := Seat.eq_of_rank (isSole.inGroup.trans ownerInGroup.symm) owns
        exact ⟨apart, near, same ▸ isSole.owns⟩
  · rintro ⟨apart, near, owned⟩
    rcases claim_nearest cells colorable userInGroup near with ⟨sole, isSole, _, _, claimed⟩
    rw [claim_derivation claimed, isSole.only owner ownerInGroup owned]
    have otherRank : sole.rank ≠ user.rank := fun same =>
      apart ((isSole.only owner ownerInGroup owned).trans
        (Seat.eq_of_rank (isSole.inGroup.trans userInGroup.symm) same))
    exact ⟨mem_closure_of_nearest near, rfl, otherRank⟩

/-- The cells can be derived once they are colored. -/
theorem derivable_of_cells : (parts.derivation size dim).Derivable size := by
  have samePrimary := primary_derivation cells colorable
  have sameCopies := copies_derivation cells colorable
  constructor
  · intro seat _
    rw [entities_derivation cells]
    exact (cells seat).entityClosure _
  · intro seat inGroup cell inside
    rw [entities_derivation cells] at inside
    cases mem_primary_or_nearest inside with
    | inl owned =>
        have claimed : Derived.claim (parts.adjacency seat) (parts.halo size seat) seat.rank dim
            cell = .ok _ := claim_primary cells owned
        rw [claim_derivation claimed]
        exact ⟨claimed, inGroup ▸ seat.rank_lt⟩
    | inr near =>
        rcases claim_nearest cells colorable inGroup near with ⟨owner, sole, _, _, claimed⟩
        rw [claim_derivation claimed]
        exact ⟨claimed, sole.inGroup ▸ owner.rank_lt⟩
  · exact answerable_congr samePrimary sameCopies (answerable_of_resolvable colorable.nearest)
  · intro owner inGroup cell owned rank user
    rw [samePrimary owner inGroup] at owned
    rw [claim_derivation (claim_primary cells owned)] at user
    rw [sharersOf_congr sameCopies inGroup]
    exact user

/-- The derived coloring is that of the cells with the first ring for ghosts. -/
theorem coloring_derivation {seat : Seat} (inGroup : seat.size = size) :
    (parts.derivation size dim).coloring size seat =
      Coloring.assemble size parts.primary (copiesOf parts.primary parts.nearest) seat :=
  assemble_congr (primary_derivation cells colorable) (copies_derivation cells colorable) inGroup

end Decomposition

namespace VertexMesh

/-- Whenever the cells of a mesh are colored on every rank, they can be derived as the entities of
their own dimension on every rank, however the messages travel; and what is derived is the coloring and
the summary that the cells get if only the first ring becomes ghosts. -/
theorem cell_entities_agree {mesh : VertexMesh} (solid : mesh.dim ≠ 0) (primary : Seat → IdSet)
    (config : ColoringConfig) {size : Rank} {patience : Patience} {halos : Seat → PrimaryHalo}
    (completes : Completes patience size
      (fun seat => PrimaryHalo.color seat mesh.adjacency (primary seat) config) halos) :
    ∃ nearest : Seat → PrimaryHalo,
      Succeeds size (fun seat => PrimaryHalo.color seat mesh.adjacency (primary seat)
        { config with ghostDepth := .nearest }) nearest ∧
      Succeeds size ((mesh.divide primary config).colorWith mesh.dim)
        fun seat => (halos seat, (nearest seat).coloring, (nearest seat).summary) := by
  let parts := mesh.divide primary config
  let shallow := mesh.divide primary { config with ghostDepth := .nearest }
  have cells : ∀ seat, (parts.adjacency seat).CellsAt mesh.dim := fun _ => cellsAt solid
  have colored : parts.Colorable size ∧
      ∀ seat : Seat, seat.size = size → parts.halo size seat = halos seat :=
    Decomposition.completes_color_iff.1 completes
  rcases colored with ⟨colorable, same⟩
  -- The depth of the ghost layer does not enter the rings.
  have shallowColorable : shallow.Colorable size := ⟨colorable.nearest, colorable.rings⟩
  have sameColoring : ∀ seat : Seat, seat.size = size →
      (parts.derivation size mesh.dim).coloring size seat = (shallow.halo size seat).coloring := by
    intro seat inGroup
    rw [Decomposition.coloring_derivation cells colorable inGroup, PrimaryHalo.coloring_halo]
    rfl
  exists shallow.halo size
  constructor
  · have shallowColored : Completes .unlimited size (fun seat => PrimaryHalo.color seat
        (shallow.adjacency seat) (shallow.primary seat) shallow.config) (shallow.halo size) :=
      Decomposition.completes_color_iff.2 ⟨shallowColorable, fun _ _ => rfl⟩
    exact shallowColored.succeeds
  · have derivable := Decomposition.derivable_of_cells cells colorable
    have derived : Completes .unlimited size (parts.colorWith mesh.dim) fun seat =>
        (halos seat, (shallow.halo size seat).coloring, (shallow.halo size seat).summary) := by
      apply Decomposition.completes_colorWith_iff.2
      exists colorable
      exists derivable
      intro seat inGroup
      rw [same seat inGroup, sameColoring seat inGroup]
      rfl
    exact derived.succeeds

/-- Two cells on two ranks, derived after a coloring with both rings for ghosts. -/
theorem cell_entities_agree_twoCells :
    let mesh := ofCells 2 twoCells
    let primary : Seat → IdSet := fun seat => .singleton seat.rank
    ∃ halos nearest : Seat → PrimaryHalo,
      Completes .limited 2 (fun seat => PrimaryHalo.color seat mesh.adjacency (primary seat)
        { ghostDepth := .nextNearest }) halos ∧
      Succeeds 2 (fun seat => PrimaryHalo.color seat mesh.adjacency (primary seat)
        { ghostDepth := .nearest }) nearest ∧
      Succeeds 2 ((mesh.divide primary { ghostDepth := .nextNearest }).colorWith 2)
        fun seat => (halos seat, (nearest seat).coloring, (nearest seat).summary) := by
  intro mesh primary
  let parts := mesh.divide primary { ghostDepth := .nextNearest }
  have colorable : parts.Colorable 2 :=
    ⟨Decomposition.colorable_pair.nearest, Decomposition.colorable_pair.rings⟩
  have halos : Completes .limited 2 (fun seat => PrimaryHalo.color seat (parts.adjacency seat)
      (parts.primary seat) parts.config) (parts.halo 2) :=
    Decomposition.completes_color_iff.2 ⟨colorable, fun _ _ => rfl⟩
  have solid : mesh.dim ≠ 0 := by decide
  rcases cell_entities_agree solid primary { ghostDepth := .nextNearest } halos with
    ⟨nearest, shallow, derived⟩
  exact ⟨_, nearest, halos, shallow, derived⟩

end VertexMesh

end Subdomain

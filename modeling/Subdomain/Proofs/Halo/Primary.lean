import Subdomain.Halo.Primary
import Subdomain.Proofs.Halo.Consistency

/-!
# Colorings of cells

The coloring of cells comes to an end on every rank exactly when every cell of the rings has one owner,
and what every rank then has is a function of all ranks' cells and adjacencies.
-/

namespace Subdomain

open Exchange Subdomain.Group Ownership

/-- What the ranks of a group are given: their adjacencies and cells, and the settings. -/
structure Decomposition where
  adjacency : Seat → Adjacency
  primary : Seat → IdSet
  config : ColoringConfig

namespace Decomposition

variable (parts : Decomposition) (size : Rank) (seat : Seat)

/-- The cells of a rank and their neighbors. -/
def closure : IdSet := (parts.adjacency seat).closure (parts.primary seat) parts.config.thruDim

/-- The first ring around a rank's cells. -/
def nearest : IdSet := parts.closure seat \ parts.primary seat

/-- The second ring. -/
def nextNearest : IdSet :=
  (parts.adjacency seat).closure (parts.nearest seat) parts.config.thruDim \ parts.closure seat

/-- Both rings. -/
def rings : IdSet := parts.nearest seat ∪ parts.nextNearest seat

/-- The rings whose cells become ghosts. -/
def ghostRings : IdSet :=
  match parts.config.ghostDepth with
  | .nearest => parts.nearest seat
  | .nextNearest => parts.rings seat

/-- The cells that a rank copies from another. -/
def cellCopies : Seat → Seat → IdSet := copiesOf parts.primary parts.ghostRings

/-- The coloring of a rank's cells. -/
def cellColoring : Coloring := .assemble size parts.primary parts.cellCopies seat

/-- All that a rank learns while its cells are colored, by what it hears from the others. -/
def haloFrom (overlaps : SortedMap Rank IdSet) (near all : Resolution) : PrimaryHalo :=
  let ghosts := match parts.config.ghostDepth with
    | .nearest => near
    | .nextNearest => all
  let coloring := { Coloring.ofRecords
      (PrimaryHalo.ownedRecords seat.rank (ghosts.usersById (parts.primary seat))) ghosts.remote with
    primary := parts.primary seat }
  { coloring, overlaps
    summary := coloring.summarize
    closure := parts.closure seat
    nearest := parts.nearest seat
    nextNearest := parts.nextNearest seat
    allNeighbors := parts.rings seat
    remote := .ofList (all.remote.toList.map fun record => (record.id, record))
    nearestUsers := .ofList ((near.usersById (parts.primary seat)).filter
      fun entry => !entry.2.isEmpty) }

/-- All that a rank learns while the cells of the group are colored. -/
def halo : PrimaryHalo :=
  parts.haloFrom seat (Gather.overlapsOf size parts.nearest seat)
    (resolutionOf size parts.primary parts.nearest seat)
    (resolutionOf size parts.primary parts.rings seat)

/-- The cells of a group can be colored: every cell of the rings has one owner. -/
structure Colorable : Prop where
  nearest : Resolvable size parts.primary parts.nearest
  rings : Resolvable size parts.primary parts.rings

end Decomposition

/-- A rank whose requests are answered copies lawfully, whatever the others do. -/
theorem lawfulFor_copiesOf {size : Rank} {primary request : Seat → IdSet} {seat : Seat}
    (inGroup : seat.size = size)
    (owners : ∀ id ∈ request seat, ∃ owner, SoleOwner size primary id owner) :
    LawfulFor size primary (copiesOf primary request) seat := by
  constructor
  · intro owner ownerInGroup id copied same
    exact (mem_copiesOf.1 copied).1 (Seat.eq_of_rank (ownerInGroup.trans inGroup.symm) same)
  · intro owner ownerInGroup id copied owned
    rcases mem_copiesOf.1 copied with ⟨apart, requested, owns⟩
    rcases owners id requested with ⟨_, sole⟩
    exact apart ((sole.only owner ownerInGroup owns).trans (sole.only seat inGroup owned).symm)
  · intro owner other ownerInGroup otherInGroup id copied copiedToo
    rcases mem_copiesOf.1 copied with ⟨_, requested, owns⟩
    rcases owners id requested with ⟨_, sole⟩
    exact (sole.only owner ownerInGroup owns).trans
      (sole.only other otherInGroup (mem_copiesOf.1 copiedToo).2.2).symm

theorem lawfulCopies_of_resolvable {size : Rank} {primary request : Seat → IdSet}
    (resolvable : Resolvable size primary request) :
    LawfulCopies size primary (copiesOf primary request) := by
  have lawful : ∀ user : Seat, user.size = size →
      LawfulFor size primary (copiesOf primary request) user :=
    fun user inGroup => lawfulFor_copiesOf inGroup (resolvable.owners user inGroup)
  constructor
  · intro user owner _ _ id copied
    exact (mem_copiesOf.1 copied).2.2
  · intro user owner userInGroup ownerInGroup
    exact (lawful user userInGroup).foreign owner ownerInGroup
  · intro user owner other userInGroup ownerInGroup otherInGroup
    exact (lawful user userInGroup).once owner other ownerInGroup otherInGroup

/-- A rank that has made its request can look up whatever it copies. -/
theorem get?_remoteById {size : Rank} {primary request : Seat → IdSet} {seat : Seat} {id : EntityId}
    (resolvable : Resolvable size primary request) (inGroup : seat.size = size)
    {record : EntityRecord} :
    (SortedMap.ofList ((resolutionOf size primary request seat).remote.toList.map fun record =>
        (record.id, record))).get? id = some record ↔
      ∃ owner : Seat, owner.size = size ∧ id ∈ copiesOf primary request seat owner ∧
        recordAt primary owner id = record := by
  have distinct := Coloring.nodup_ghostIds_assemble (lawfulCopies_of_resolvable resolvable) inGroup
  have keys : (((resolutionOf size primary request seat).remote.toList.map
      fun record => (record.id, record)).map Prod.fst).Nodup := by
    rw [List.map_map]
    exact distinct
  rw [SortedMap.get?_ofList_eq_some_iff keys, List.mem_map]
  constructor
  · rintro ⟨_, member, same⟩
    cases same
    rcases mem_ghostsOf.1 member with ⟨owner, ownerInGroup, id, copied, rfl⟩
    exact ⟨owner, ownerInGroup, copied, rfl⟩
  · rintro ⟨owner, ownerInGroup, copied, rfl⟩
    exact ⟨_, mem_ghostsOf.2 ⟨owner, ownerInGroup, id, copied, rfl⟩, rfl⟩

namespace PrimaryHalo

variable {β : Type} {patience : Patience} {size : Rank} {values : Seat → β} {seat : Seat}

theorem usersById_resolutionOf (primary request : Seat → IdSet) :
    (resolutionOf size primary request seat).usersById (primary seat) =
      (primary seat).toList.map fun id =>
        (id, sharersOf size (copiesOf primary request) seat id) := by
  rw [List.map_prod_left_eq_zip]
  rfl

theorem ownedRecords_usersById (primary request : Seat → IdSet) :
    ownedRecords seat.rank ((resolutionOf size primary request seat).usersById (primary seat)) =
      (primary seat).toList.map
        (Coloring.originalAt size primary (copiesOf primary request) seat) := by
  rw [ownedRecords, usersById_resolutionOf, List.zipIdx_map, SortedSet.zipIdx_toList, List.map_map,
    List.map_map]
  rfl

/-- The check of a coloring, if the settings ask for it. -/
def checkedBy (config : ColoringConfig) (coloring : Coloring) : Except Error Unit :=
  if config.validate then coloring.checkInvariants else .ok ()

theorem color_eq (parts : Decomposition) (seat : Seat) :
    color seat (parts.adjacency seat) (parts.primary seat) parts.config =
      Gather.overlaps seat (parts.nearest seat) Tags.overlaps >>= fun overlaps =>
      resolve seat (parts.primary seat) (parts.nearest seat) Tags.owners >>= fun near =>
      resolve seat (parts.primary seat) (parts.rings seat) Tags.owners >>= fun all =>
      Collective.ofExcept
        (checkedBy parts.config (parts.haloFrom seat overlaps near all).coloring) >>= fun _ =>
      pure (parts.haloFrom seat overlaps near all) := by
  rw [color]
  apply bind_congr
  intro overlaps
  apply bind_congr
  intro near
  apply bind_congr
  intro all
  dsimp only [checkedBy]
  cases parts.config.validate <;> rfl

/-- A coloring is assembled from whatever the rank has learnt of its ghosts. -/
theorem coloring_haloFrom (parts : Decomposition) (seat : Seat) {request : Seat → IdSet}
    {overlaps : SortedMap Rank IdSet} {near all : Resolution}
    (ghosts : (match parts.config.ghostDepth with
      | .nearest => near
      | .nextNearest => all) = resolutionOf size parts.primary request seat) :
    (parts.haloFrom seat overlaps near all).coloring =
      Coloring.assemble size parts.primary (copiesOf parts.primary request) seat := by
  rw [Decomposition.haloFrom]
  dsimp only
  rw [ghosts, ownedRecords_usersById]
  exact congrArg (fun ids =>
    { Coloring.assemble size parts.primary (copiesOf parts.primary request) seat with primary := ids })
    Coloring.primary_assemble.symm

theorem coloring_halo (parts : Decomposition) (seat : Seat) :
    (parts.halo size seat).coloring = parts.cellColoring size seat := by
  apply coloring_haloFrom
  unfold Decomposition.ghostRings
  cases parts.config.ghostDepth <;> rfl

theorem ghostRings_cases (parts : Decomposition) :
    parts.ghostRings = parts.nearest ∨ parts.ghostRings = parts.rings := by
  cases depth : parts.config.ghostDepth with
  | nearest =>
      left
      funext seat
      rw [Decomposition.ghostRings, depth]
  | nextNearest =>
      right
      funext seat
      rw [Decomposition.ghostRings, depth]

/-- What ranks copy when their cells can be colored. -/
theorem lawful_cellCopies {parts : Decomposition} (colorable : parts.Colorable size) :
    LawfulCopies size parts.primary parts.cellCopies := by
  rw [Decomposition.cellCopies]
  cases ghostRings_cases parts with
  | inl nearest => exact nearest ▸ lawfulCopies_of_resolvable colorable.nearest
  | inr rings => exact rings ▸ lawfulCopies_of_resolvable colorable.rings

/-- The coloring of cells comes to an end on every rank exactly when the cells can be colored. -/
theorem completes_color_iff {parts : Decomposition}
    {next : Seat → PrimaryHalo → Collective β} :
    Completes patience size (fun seat =>
        color seat (parts.adjacency seat) (parts.primary seat) parts.config >>= next seat) values ↔
      parts.Colorable size ∧
        Completes patience size (fun seat => next seat (parts.halo size seat)) values := by
  simp only [color_eq, bind_assoc, pure_bind]
  rw [Gather.completes_overlaps_iff, completes_resolve_iff, completes_resolve_iff,
    completes_required_iff]
  constructor
  · rintro ⟨_, nearest, rings, _, completes⟩
    exact ⟨⟨nearest, rings⟩, completes⟩
  · rintro ⟨colorable, completes⟩
    refine ⟨colorable.nearest.requests, colorable.nearest, colorable.rings, ?_, completes⟩
    intro seat inGroup
    change ∃ value, checkedBy parts.config (parts.halo size seat).coloring = .ok value
    rw [coloring_halo, checkedBy, Decomposition.cellColoring,
      Coloring.checkInvariants_assemble (lawful_cellCopies colorable) inGroup, ite_self]
    exact ⟨(), rfl⟩

end PrimaryHalo

end Subdomain

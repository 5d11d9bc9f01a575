import Subdomain.Config
import Subdomain.Halo.Gather
import Subdomain.Halo.Ownership
import Subdomain.Halo.Tags
import Subdomain.Mesh.Adjacency

/-!
# Coloring of cells

Each rank knows which cells it owns. Around them lie two rings of cells: those adjacent to an owned
cell, and those adjacent to the first ring. The owners of both rings are asked for; the first or both
become ghosts, and an owned cell is shared with the ranks that asked for it.
-/

namespace Subdomain

/-- All that a rank learns while its cells are colored. -/
structure PrimaryHalo where
  coloring : Coloring := {}
  summary : Summary := {}
  /-- The primary set and the first ring. -/
  closure : IdSet := ∅
  /-- The first ring. -/
  nearest : IdSet := ∅
  /-- The second ring. -/
  nextNearest : IdSet := ∅
  /-- Both rings. -/
  allNeighbors : IdSet := ∅
  /-- For each peer, the cells of the first ring that are also in the peer's. -/
  overlaps : SortedMap Rank IdSet := ∅
  /-- Records of the cells in both rings. -/
  remote : SortedMap EntityId EntityRecord := ∅
  /-- For each owned cell that is in the first ring of a peer, these peers. -/
  nearestUsers : SortedMap EntityId RankSet := ∅
  deriving DecidableEq

namespace PrimaryHalo

/-- The primary set and both rings. -/
def nextNearestClosure (halo : PrimaryHalo) : IdSet := halo.closure ∪ halo.nextNearest

/-- The record of an owned cell that others copy. -/
def sharedRecord? (halo : PrimaryHalo) (id : EntityId) : Option EntityRecord :=
  halo.coloring.shared.toList.find? (·.id == id)

/-- The records of owned cells, numbered in ascending order, each with the ranks that asked for it. -/
def ownedRecords (rank : Rank) (users : List (EntityId × RankSet)) : List EntityRecord :=
  users.zipIdx.map fun ((id, sharers), position) => ⟨id, rank, .ofNat position, sharers⟩

/-- Color the cells of a rank that owns a primary set. -/
def color (seat : Seat) (adjacency : Adjacency) (primary : IdSet) (config : ColoringConfig) :
    Collective PrimaryHalo := do
  let closure := adjacency.closure primary config.thruDim
  let nearest := closure \ primary
  let overlaps ← Gather.overlaps seat nearest Tags.overlaps
  let nextNearest := adjacency.closure nearest config.thruDim \ closure
  let allNeighbors := nearest ∪ nextNearest
  let near ← Ownership.resolve seat primary nearest Tags.owners
  let all ← Ownership.resolve seat primary allNeighbors Tags.owners
  let ghosts := match config.ghostDepth with
    | .nearest => near
    | .nextNearest => all
  let coloring := { Coloring.ofRecords (ownedRecords seat.rank (ghosts.usersById primary))
    ghosts.remote with primary }
  if config.validate then Collective.ofExcept coloring.checkInvariants
  return {
    coloring, closure, nearest, nextNearest, allNeighbors, overlaps
    summary := coloring.summarize
    remote := .ofList (all.remote.toList.map fun record => (record.id, record))
    nearestUsers := .ofList ((near.usersById primary).filter fun (_, users) => !users.isEmpty) }

end PrimaryHalo

end Subdomain

import Subdomain.Halo.Primary

/-!
# Coloring of derived entities

A vertex or another entity of lower dimension belongs to the lowest rank that owns a cell referencing
it. Each rank works out the owners of all entities that its closure references, numbers its own in
ascending order and asks the owners of the others for their offsets. An owned entity is shared with
the ranks that asked for it; these have to include all that are known to reference it.
-/

namespace Subdomain

namespace Derived

/-- Who owns an entity, as far as one rank can see. -/
structure Claim where
  owner : Rank
  /-- Ranks known to reference the entity. -/
  users : RankSet
  deriving DecidableEq

/-- The rank that stands for nobody: no owner is above it. -/
def nobody : Rank := 0xFFFFFFFFFFFFFFFF

/-- What one cell tells about an entity that it references: the owner of the cell, and the ranks that
own it or have it in their first ring. -/
def claimThrough (halo : PrimaryHalo) (rank : Rank) (id cell : EntityId) : Except Error Claim := do
  let watchers : RankSet := .ofList
    ((halo.overlaps.toList.filter fun (_, cells) => decide (cell ∈ cells)).map Prod.fst)
  if cell ∈ halo.coloring.primary then
    return ⟨rank, (halo.nearestUsers.get? cell).getD ∅ ∪ watchers⟩
  match halo.remote.get? cell with
  | some record => return ⟨record.owner, .singleton record.owner ∪ watchers⟩
  | none => throw (.unresolvedReferencer id cell)

/-- The owner of an entity and the ranks known to reference it. -/
def claim (adjacency : Adjacency) (halo : PrimaryHalo) (rank : Rank) (dim : Nat) (id : EntityId) :
    Except Error Claim := do
  let cells ← adjacency.referencers dim id
  let claims ← cells.toList.mapM (claimThrough halo rank id)
  let owner := claims.foldl (fun least claim => min least claim.owner) nobody
  if owner = nobody then throw (.unownedEntity id)
  return ⟨owner, claims.foldl (fun users claim => users ∪ claim.users) ∅⟩

/-- The claims on some entities; the owner of each has to be in the group. -/
def claims (seat : Seat) (adjacency : Adjacency) (halo : PrimaryHalo) (dim : Nat) (ids : IdSet) :
    Except Error (List (EntityId × Claim)) :=
  ids.toList.mapM fun id => do
    let claim ← claim adjacency halo seat.rank dim id
    if seat.size ≤ claim.owner then throw (.defect .indexOutOfRange)
    return (id, claim)

/-- The record of an owned entity that some ranks requested. -/
def ownedRecord (rank : Rank) (requesters : SortedMap EntityId RankSet) (id : EntityId)
    (claim : Claim) (offset : UInt64) : Except Error EntityRecord :=
  let sharers := (requesters.get? id).getD ∅
  match (claim.users \ sharers).toList.head? with
  | some missing => .error (.ownershipDisagreement id missing)
  | none => .ok ⟨id, rank, offset, sharers⟩

/-- The records of requested entities, given their owners' offsets. -/
def ghostRecords (requests : List (Rank × IdSet)) (offsets : List (List UInt64)) :
    List EntityRecord :=
  (requests.zip offsets).flatMap fun ((owner, ids), offsets) =>
    (ids.toList.zip offsets).map fun (id, offset) => ⟨id, owner, offset, ∅⟩

/-- Color the entities of a dimension that the closure of a colored primary set references. -/
def color (seat : Seat) (adjacency : Adjacency) (halo : PrimaryHalo) (dim : Nat) :
    Collective (Coloring × Summary) := do
  let ids ← Collective.ofExcept (adjacency.entityClosure halo.closure dim)
  let claims ← Collective.ofExcept (claims seat adjacency halo dim ids)
  let owned := (claims.filter fun (_, claim) => claim.owner == seat.rank).zipIdx
  let requests := seat.ranks.map fun rank => (rank, SortedSet.ofList ((claims.filter
    fun (_, claim) => claim.owner == rank && rank != seat.rank).map Prod.fst))
  let ownOffsets := SortedMap.ofList
    (owned.map fun ((id, _), position) => (id, UInt64.ofNat position))
  let answer ← Ownership.offsets seat ownOffsets (requests.map Prod.snd) Tags.offsets
  let records ← Collective.ofExcept (owned.mapM fun ((id, claim), position) =>
    ownedRecord seat.rank answer.requesters id claim (.ofNat position))
  let coloring := Coloring.ofRecords records (.ofList (ghostRecords requests answer.offsets))
  return (coloring, coloring.summarize)

/-- Color derived entities and check the coloring if the settings say so. -/
def colorChecked (seat : Seat) (adjacency : Adjacency) (config : ColoringConfig)
    (halo : PrimaryHalo) (dim : Nat) : Collective (Coloring × Summary) := do
  let (coloring, summary) ← color seat adjacency halo dim
  if config.validate then Collective.ofExcept coloring.checkInvariants
  return (coloring, summary)

end Derived

end Subdomain

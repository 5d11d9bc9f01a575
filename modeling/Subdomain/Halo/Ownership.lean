import Subdomain.Halo.Coloring
import Subdomain.Message.Exchange
import Subdomain.Ordered.Sort

/-!
# Ownership

Two collectives that ask the ranks for what they own. In both, all requests arrive before any is
answered, because an answer depends on the whole of them, and every rank answers what it can before
it reports an error, so that no peer is left waiting.

In the first every request goes to all ranks, and exactly one has to answer. In the second it goes to
the rank that is believed to be the owner.
-/

namespace Subdomain

/-- The answer to a request for owners. -/
structure Resolution where
  /-- For each id owned here, in ascending order, the other ranks that requested it. -/
  users : List RankSet
  /-- A record for each requested id that is owned elsewhere. -/
  remote : RecordSet
  deriving DecidableEq

namespace Resolution

/-- The ids owned here with the ranks that requested them. -/
def usersById (resolution : Resolution) (primary : IdSet) : List (EntityId × RankSet) :=
  primary.toList.zip resolution.users

end Resolution

/-- The answer to a request for offsets. -/
structure OffsetAnswer where
  /-- For each rank, the offsets of the ids requested from it, in ascending order of the ids. -/
  offsets : List (List UInt64)
  /-- For each id owned here that was requested, the ranks that did. -/
  requesters : SortedMap EntityId RankSet
  deriving DecidableEq

namespace Location

/-- The record of an entity that lives elsewhere. -/
def record (location : Location) : EntityRecord :=
  ⟨location.id, location.owner, location.offset, ∅⟩

end Location

namespace Ownership

/-- Where an id is in a rank's ascending primary set. -/
def locate? (rank : Rank) (primary : IdSet) (id : EntityId) : Option Location :=
  (primary.toList.idxOf? id).map fun position => ⟨id, rank, .ofNat position⟩

/-- The ranks among some requests that ask for an id. -/
def requestersOf (requests : List (Rank × List EntityId)) (id : EntityId) : RankSet :=
  .ofList ((requests.filter fun (_, ids) => ids.contains id).map Prod.fst)

/-- Settle who owns a requested id, given all answers: exactly one rank has to claim it, this one
included. Gives the record of an id owned elsewhere. -/
def settle (rank : Rank) (primary : IdSet) (answers : List Location) (id : EntityId) :
    Except Error (Option EntityRecord) :=
  match answers.filter (·.id == id), decide (id ∈ primary) with
  | [], true => .ok none
  | [], false => .error (.unownedEntity id)
  | [location], false => .ok (some location.record)
  | locations, isLocal =>
    let others := locations.map Location.owner
    let claimers := if isLocal then others ++ [rank] else others
    .error (.multiplyOwned id (sortOn (fun claimer => claimer) claimers))

/-- Ask all ranks for the owners of some ids. -/
def resolve (seat : Seat) (primary request : IdSet) (tag : Tag) : Collective Resolution := do
  let requests ← Exchange.allGather seat request.toList tag
  let foreign := (seat.ranks.zip requests).filter fun (rank, _) => rank != seat.rank
  let replies := (seat.ranks.zip requests).map fun (rank, ids) =>
    if rank = seat.rank then [] else ids.filterMap (locate? seat.rank primary)
  let answers ← Exchange.allToAll seat replies (tag + 2)
  let records ← Collective.ofExcept
    (request.toList.mapM (settle seat.rank primary answers.flatten))
  return {
    users := primary.toList.map (requestersOf foreign)
    remote := .ofList (records.filterMap id) }

/-- Read the offsets of some ids, in order, off an owner's answer. -/
def readOffsets : List EntityId → List Location → Except Error (List UInt64)
  | [], _ => .ok []
  | id :: ids, location :: locations =>
    if location.id = id then (readOffsets ids locations).map (location.offset :: ·)
    else .error (.unownedEntity id)
  | id :: _, [] => .error (.unownedEntity id)

/-- The first request for an id that is not owned here. -/
def stray? (owned : SortedMap EntityId UInt64) (requests : List (Rank × List EntityId)) :
    Option (Rank × EntityId) :=
  requests.findSome? fun (rank, ids) =>
    (ids.find? fun id => (owned.get? id).isNone).map (rank, ·)

/-- Ask the believed owner of each id for the id's offset; `requests` has a set for each rank. -/
def offsets (seat : Seat) (owned : SortedMap EntityId UInt64) (requests : List IdSet) (tag : Tag) :
    Collective OffsetAnswer := do
  if requests.length ≠ seat.size.toNat then
    throw (.sendBufferCount seat.size.toNat requests.length)
  let incoming ← Exchange.allToAll seat (requests.map SortedSet.toList) tag
  let replies := incoming.map fun ids => ids.filterMap fun id =>
    (owned.get? id).map fun offset => (⟨id, seat.rank, offset⟩ : Location)
  let answers ← Exchange.allToAll seat replies (tag + 2)
  let received := seat.ranks.zip incoming
  if let some (rank, id) := stray? owned received then throw (.unexpectedRequest id rank)
  let offsets ← Collective.ofExcept
    ((requests.zip answers).mapM fun (ids, locations) => readOffsets ids.toList locations)
  return {
    offsets
    requesters := .ofKeys owned.keys fun id =>
      let ranks := requestersOf received id
      if ranks.isEmpty then none else some ranks }

end Ownership

end Subdomain

import Subdomain.Error
import Subdomain.Sparse.Layout

/-!
# Colorings

A coloring sorts the entities of one index space, as one rank sees them, into those it owns and no
other rank copies, those it owns and others copy, and those it copies from their owners. Its summary
is what every rank learns about every other.
-/

namespace Subdomain

/-- One entity as a coloring sees it. -/
structure EntityRecord where
  id : EntityId
  /-- The rank that owns the entity. -/
  owner : Rank
  /-- The position of the entity in the owner's numbering. -/
  offset : UInt64
  /-- The ranks that copy an entity owned here. -/
  sharers : RankSet := ∅
  deriving DecidableEq

namespace EntityRecord

/-- Records are ordered by id, then owner, offset and sharers. -/
def order : EntityRecord → EntityRecord → Ordering :=
  compareLex (compareOn id) <| compareLex (compareOn owner) <|
    compareLex (compareOn offset) (compareOn fun record => record.sharers.toList)

instance : Ord EntityRecord where
  compare := order

instance : Std.TransOrd EntityRecord :=
  inferInstanceAs (Std.TransCmp (compareLex (compareOn id) <| compareLex (compareOn owner) <|
    compareLex (compareOn offset) (compareOn fun record => record.sharers.toList)))

instance : Std.LawfulEqOrd EntityRecord where
  eq_of_compare {first second} equal := by
    have fields : order first second = .eq := equal
    simp only [order, compareLex, compareOn, Ordering.then_eq_eq,
      Std.LawfulEqCmp.compare_eq_iff_eq] at fields
    have sharers := SortedSet.eq_of_toList_eq fields.2.2.2
    cases first
    cases second
    simp_all

end EntityRecord

/-- A set of entity records. -/
abbrev RecordSet := SortedSet EntityRecord

/-- What a rank tells the others about its coloring. -/
structure Summary where
  /-- Entities owned and copied by nobody. -/
  exclusive : UInt64 := 0
  /-- Entities owned and copied elsewhere. -/
  shared : UInt64 := 0
  /-- Entities copied from their owners. -/
  ghost : UInt64 := 0
  /-- The ranks that copy an entity owned here. -/
  sharedUsers : RankSet := ∅
  /-- The ranks that own an entity copied here. -/
  ghostOwners : RankSet := ∅
  deriving DecidableEq

namespace Summary

/-- Number of local rows. -/
def total (summary : Summary) : Nat :=
  summary.exclusive.toNat + summary.shared.toNat + summary.ghost.toNat

end Summary

/-- The entities of one index space as one rank sees them. -/
structure Coloring where
  /-- The entities owned here. -/
  primary : IdSet := ∅
  exclusive : RecordSet := ∅
  shared : RecordSet := ∅
  ghost : RecordSet := ∅
  deriving DecidableEq

namespace Coloring

/-- The ids of a set of records. -/
def idsOf (records : RecordSet) : IdSet := .ofList (records.toList.map EntityRecord.id)

/-- The ids of the exclusive records. -/
def exclusiveIds (coloring : Coloring) : IdSet := idsOf coloring.exclusive

/-- The ids of the shared records. -/
def sharedIds (coloring : Coloring) : IdSet := idsOf coloring.shared

/-- The ids of the ghost records. -/
def ghostIds (coloring : Coloring) : IdSet := idsOf coloring.ghost

/-- The exclusive records and then the shared ones. -/
def ownedRecords (coloring : Coloring) : List EntityRecord :=
  coloring.exclusive.toList ++ coloring.shared.toList

/-- The owned records by id; of two records with one id the later counts. -/
def ownedById (coloring : Coloring) : SortedMap EntityId EntityRecord :=
  .ofList (coloring.ownedRecords.map fun record => (record.id, record))

/-- The local row order: exclusive, shared and ghost entities, each in ascending order. -/
def localRows (coloring : Coloring) : List EntityId :=
  (coloring.ownedRecords ++ coloring.ghost.toList).map EntityRecord.id

/-- The row counts of the regions. -/
def layout (coloring : Coloring) : Layout where
  exclusive := coloring.exclusive.size
  shared := coloring.shared.size
  ghost := coloring.ghost.size

/-- The counts of a coloring and the ranks that it has to do with. -/
def summarize (coloring : Coloring) : Summary where
  exclusive := .ofNat coloring.exclusive.size
  shared := .ofNat coloring.shared.size
  ghost := .ofNat coloring.ghost.size
  sharedUsers := .ofList (coloring.shared.toList.flatMap fun record => record.sharers.toList)
  ghostOwners := .ofList (coloring.ghost.toList.map EntityRecord.owner)

/-- The coloring with some owned records, exclusive if nobody shares them, and some ghosts. -/
def ofRecords (owned : List EntityRecord) (ghost : RecordSet) : Coloring where
  primary := .ofList (owned.map EntityRecord.id)
  exclusive := .ofList (owned.filter fun record => record.sharers.isEmpty)
  shared := .ofList (owned.filter fun record => !record.sharers.isEmpty)
  ghost := ghost

/-- Check ghosts in turn: none is owned here, and none has the id of one before. -/
def checkGhosts (primary seen : IdSet) : List EntityRecord → Except Error Unit
  | [] => .ok ()
  | ghost :: rest =>
    if ghost.id ∈ primary then
      .error (.invariantViolation s!"ghost {ghost.id} is also primary")
    else if ghost.id ∈ seen then
      .error (.invariantViolation s!"ghost {ghost.id} listed twice")
    else checkGhosts primary (seen.insert ghost.id) rest

/-- Check a coloring: the primary set is the disjoint union of exclusive and shared ids with one
record each, every shared record has sharers, and every ghost is owned elsewhere. -/
def checkInvariants (coloring : Coloring) : Except Error Unit := do
  let exclusive := coloring.exclusiveIds
  let shared := coloring.sharedIds
  if exclusive.size ≠ coloring.exclusive.size ∨ shared.size ≠ coloring.shared.size then
    throw (.invariantViolation "duplicate id within exclusive or shared")
  if let some id := (exclusive ∩ shared).toList.head? then
    throw (.invariantViolation s!"entity {id} is both exclusive and shared")
  let owned := exclusive ∪ shared
  if owned ≠ coloring.primary then
    throw (.invariantViolation
      s!"primary has {coloring.primary.size} ids but exclusive ∪ shared has {owned.size}")
  if let some record := coloring.shared.toList.find? fun record => record.sharers.isEmpty then
    throw (.invariantViolation s!"shared entity {record.id} has no users")
  checkGhosts coloring.primary ∅ coloring.ghost.toList
  if let some first := coloring.ownedRecords.head? then
    if let some ghost := coloring.ghost.toList.find? (·.owner == first.owner) then
      throw (.invariantViolation
        s!"ghost {ghost.id} is owned by the local rank {first.owner}")

end Coloring

end Subdomain

import Subdomain.Identifier

/-!
# Errors

Every way in which an operation can fail, one constructor per cause, and the text of each. No
failure is meant to be retried: the partition, the exchange or the caller is at fault.
-/

namespace Subdomain

/-- A promise that the caller broke so that no answer exists; the run stops there. -/
inductive Defect where
  /-- A position outside a table was read. -/
  | indexOutOfRange
  /-- A buffer was asked for that no memory can address. -/
  | lengthOverflow
  /-- More slots of a row came into use than its 16-bit count can hold. -/
  | slotCountOverflow
  /-- A length taken from a message exceeds 64 bits. -/
  | wordOverflow
  deriving DecidableEq, Repr

namespace Defect

/-- What went wrong, in words. -/
def message : Defect → String
  | indexOutOfRange => "index out of range"
  | lengthOverflow => "buffer length cannot be addressed"
  | slotCountOverflow => "slot count exceeds 16 bits"
  | wordOverflow => "length exceeds 64 bits"

end Defect

/-- The cause of a failure. -/
inductive Error where
  /-- No rank claims an entity that the coloring needs. -/
  | unownedEntity (id : EntityId)
  /-- More than one rank claims an entity. -/
  | multiplyOwned (id : EntityId) (ranks : List Rank)
  /-- A peer asked this rank for an entity that it does not own. -/
  | unexpectedRequest (id : EntityId) (requester : Rank)
  /-- A rank references an entity that it did not request from its owner. -/
  | ownershipDisagreement (id : EntityId) (rank : Rank)
  /-- A cell that references an entity is neither local nor known to the halo. -/
  | unresolvedReferencer (id referencer : EntityId)
  /-- The mesh has no entities of this dimension. -/
  | unsupportedEntityDim (dim : Nat)
  /-- A row outside the layout. -/
  | rowOutOfBounds (row numRows : Nat)
  /-- An entry at or past the row width. -/
  | entryOutOfBounds (entry : UInt64) (max : Nat)
  /-- A row length that does not fit the count field of a packed descriptor. -/
  | offsetCountOverflow (count bits : Nat)
  /-- A buffer of this length was refused. -/
  | allocationFailed (requested : Nat)
  /-- A shared or ghost row longer than its fixed capacity. -/
  | rowCapacityExceeded (row needed capacity : Nat)
  /-- A peer's message is missing or unreadable. -/
  | commError (neighbor : Rank) (reason : String)
  /-- A message of another length than announced. -/
  | messageSizeMismatch (neighbor : Rank) (expected found : Nat)
  /-- Not one send buffer per rank. -/
  | sendBufferCount (expected found : Nat)
  /-- An index space that was never colored. -/
  | unknownIndexSpace (space : SpaceId)
  /-- A field that was never registered. -/
  | unknownField (id : Nat)
  /-- A field looked up at a type that it does not hold, with the names of both types. -/
  | fieldTypeMismatch (field stored requested : String)
  /-- A draft made for another row layout than the store it is committed to. -/
  | layoutMismatch (draft store : Nat × Nat × Nat)
  /-- A rejected setting. -/
  | invalidConfig (reason : String)
  /-- A structure that breaks its own rules. -/
  | invariantViolation (reason : String)
  /-- A broken promise of the caller. -/
  | defect (defect : Defect)
  deriving DecidableEq

namespace Error

/-- A list of ranks in brackets, separated by commas. -/
def rankListText (ranks : List Rank) : String :=
  "[" ++ ", ".intercalate (ranks.map toString) ++ "]"

/-- Three row counts in parentheses. -/
def rowCountsText (counts : Nat × Nat × Nat) : String :=
  "(" ++ ", ".intercalate [toString counts.1, toString counts.2.1, toString counts.2.2] ++ ")"

/-- The text of an error. -/
def message : Error → String
  | unownedEntity id => s!"Coloring error: entity {id} is not owned by any rank"
  | multiplyOwned id ranks =>
      s!"Coloring error: entity {id} claimed by ranks {rankListText ranks}"
  | unexpectedRequest id requester =>
      s!"Coloring error: rank {requester} requested entity {id}, which is not owned here"
  | ownershipDisagreement id rank =>
      s!"Coloring error: rank {rank} references entity {id} but did not request it from its owner"
  | unresolvedReferencer id referencer =>
      s!"Coloring error: entity {id} is referenced by {referencer}, whose owner is unknown"
  | unsupportedEntityDim dim => s!"Adjacency oracle does not support entity dimension {dim}"
  | rowOutOfBounds row numRows => s!"Row {row} out of bounds (num_rows = {numRows})"
  | entryOutOfBounds entry max =>
      s!"Entry {entry} out of bounds (max_entries_per_index = {max})"
  | offsetCountOverflow count bits => s!"Offset count {count} exceeds {bits}-bit count field"
  | allocationFailed requested =>
      s!"Failed to allocate {requested} entries while growing the exclusive region"
  | rowCapacityExceeded row needed capacity =>
      s!"Row {row} needs {needed} entries but its capacity is {capacity}"
  | commError neighbor reason => s!"Communication error with rank {neighbor}: {reason}"
  | messageSizeMismatch neighbor expected found =>
      s!"Rank {neighbor} sent {found} bytes, expected {expected}"
  | sendBufferCount expected found =>
      s!"Expected {expected} per-rank send buffers, got {found}"
  | unknownIndexSpace space => s!"No coloring registered for index space {space}"
  | unknownField id => s!"No field registered with id {id}"
  | fieldTypeMismatch field stored requested =>
      s!"Field `{field}` stores `{stored}`, requested `{requested}`"
  | layoutMismatch draft store =>
      s!"Layout mismatch: mutator {rowCountsText draft}, target {rowCountsText store}"
  | invalidConfig reason => s!"Invalid configuration: {reason}"
  | invariantViolation reason => s!"Invariant violation: {reason}"
  | defect cause => cause.message

/-- Whether an error shows that the ranks' primary sets do not fit together. -/
def isPartitionFault : Error → Bool
  | unownedEntity .. | multiplyOwned .. | unexpectedRequest .. | ownershipDisagreement ..
  | unresolvedReferencer .. => true
  | _ => false

end Error

end Subdomain

import Subdomain.Halo.Coloring
import Subdomain.Sparse.Field

/-!
# Contexts

What a process knows: its place in the group, its settings, one coloring per index space with every
rank's summary, and the sparse fields registered over these spaces. Fields are numbered in the order
of their registration and keep the layout that their space had then.
-/

namespace Subdomain

open ValueFamily (Carrier name)

/-- A coloring with every rank's summary of its own. -/
structure SpaceColoring where
  coloring : Coloring
  summaries : SortedMap Rank Summary
  deriving DecidableEq

/-- A field of some type. -/
structure AnyField (ι : Type) [ValueFamily ι] where
  type : ι
  field : Field type

variable {ι : Type} [ValueFamily ι]

namespace AnyField

/-- The field, if it holds values of a type. -/
def as? [DecidableEq ι] (any : AnyField ι) (type : ι) : Option (Field type) :=
  if equal : any.type = type then some (equal ▸ any.field) else none

end AnyField

/-- What a process knows. -/
structure Context (ι : Type := ValueType) [ValueFamily ι] where
  rank : Rank
  size : Rank
  config : RuntimeConfig
  spaces : SortedMap SpaceId SpaceColoring
  /-- The registered fields by their numbers. -/
  fields : SortedMap Nat (AnyField ι)
  /-- The number of the next field. -/
  nextField : Nat := 0

namespace Context

/-- A context without colorings and fields. The rank has to be in the group, and the settings
acceptable. -/
def create (rank size : Rank) (config : RuntimeConfig) : Except Error (Context ι) := do
  if size ≤ rank then
    throw (.invalidConfig s!"rank {rank} outside communicator of size {size}")
  config.check
  return { rank, size, config, spaces := ∅, fields := ∅ }

/-- Record a coloring, in place of an earlier one of the same space. -/
def addColoring (context : Context ι) (space : SpaceId) (coloring : SpaceColoring) : Context ι :=
  { context with spaces := context.spaces.insert space coloring }

/-- The recorded coloring of a space. -/
def coloringOf (context : Context ι) (space : SpaceId) : Except Error SpaceColoring :=
  match context.spaces.get? space with
  | some coloring => .ok coloring
  | none => .error (.unknownIndexSpace space)

/-- Register a field over a space, with the rows that its coloring has now. Gives the new context and
the number of the field. -/
def register (context : Context ι) (type : ι) (name : String) (space : SpaceId)
    (memory : Memory := Field.memory type) : Except Error (Context ι × Nat) := do
  let layout := (← context.coloringOf space).coloring.layout
  let field : Field type ← Field.create name space layout context.config.sparse memory
  let id := context.nextField
  let fields := context.fields.insert id ⟨type, field⟩
  return ({ context with fields, nextField := id + 1 }, id)

/-- Replace a registered field by another of its type. -/
def setField {type : ι} (context : Context ι) (id : Nat) (field : Field type) : Context ι :=
  { context with fields := context.fields.insert id ⟨type, field⟩ }

variable [DecidableEq ι]

/-- Look a field up at a type. -/
def field (context : Context ι) (type : ι) (id : Nat) : Except Error (Field type) :=
  match context.fields.get? id with
  | none => .error (.unknownField id)
  | some any =>
    match any.as? type with
    | some field => .ok field
    | none => .error (.fieldTypeMismatch any.field.name (name any.type) (name type))

/-- Commit a draft to a field. -/
def commit (context : Context ι) (type : ι) (id : Nat) (draft : Draft (Carrier type))
    (memory scratch : Memory := Field.memory type) : Except Error (Context ι × CommitStats) := do
  let (field, stats) ← (← context.field type id).commit draft memory scratch
  return (context.setField id field, stats)

/-- The context in words. -/
def describe (context : Context ι) : String :=
  let spaces := context.spaces.keys.toList.map fun space => s!"IndexSpaceId({space})"
  "RuntimeContext \x7b rank: " ++ toString context.rank ++ ", size: " ++ toString context.size ++
    ", index_spaces: [" ++ ", ".intercalate spaces ++ "], fields: " ++
    toString context.fields.size ++ " \x7d"

end Context

end Subdomain

import Subdomain.Sparse.Commit
import Subdomain.Sparse.ValueType

/-!
# Sparse fields

A named store over one index space that hands out drafts of its own shape and counts its commits.
-/

namespace Subdomain

open ValueFamily (Carrier cellBytes)

/-- A named sparse field over one index space. -/
structure Field {ι : Type} [ValueFamily ι] (type : ι) where
  name : String
  space : SpaceId
  /-- Slots per row of its drafts. -/
  numSlots : Nat
  store : Store (Carrier type)
  /-- Number of successful commits. -/
  epoch : Nat

namespace Field

variable {ι : Type} [ValueFamily ι] {type : ι}

/-- The memory that a process has for the cells of a field, unless it is short of it. -/
def memory (type : ι) : Memory := .ofElementBytes (cellBytes type)

/-- An empty field with the given rows. -/
def create (name : String) (space : SpaceId) (layout : Layout) (config : SparseConfig)
    (memory : Memory := Field.memory type) : Except Error (Field type) := do
  config.check
  let store ← Store.ofConfig memory layout config
  return { name, space, numSlots := config.numSlots, store, epoch := 0 }

/-- An empty draft of the field's shape. -/
def draft (field : Field type) (memory : Memory := Field.memory type) :
    Except Error (Draft (Carrier type)) :=
  Draft.create memory field.store.layout field.numSlots field.store.maxEntries

/-- Commit a draft; the epoch advances only if that succeeds. -/
def commit (field : Field type) (draft : Draft (Carrier type))
    (memory scratch : Memory := Field.memory type) : Except Error (Field type × CommitStats) := do
  let (store, stats) ← field.store.commit memory scratch draft
  return ({ field with store, epoch := field.epoch + 1 }, stats)

end Field

end Subdomain

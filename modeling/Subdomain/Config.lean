import Subdomain.Sparse.Offset

/-!
# Settings

What a coloring pass and the sparse storage can be told. Every setting has a default, so a partial
description is completed by it.
-/

namespace Subdomain

/-- Which ring of cells around the primary set becomes the ghost layer. -/
inductive GhostDepth where
  /-- The cells adjacent to the primary set. -/
  | nearest
  /-- These and the cells adjacent to them. -/
  | nextNearest
  deriving DecidableEq, Repr

/-- Settings of a coloring pass. -/
structure ColoringConfig where
  /-- Cells are neighbors when they share an entity of this dimension. -/
  thruDim : Nat := 0
  ghostDepth : GhostDepth := .nearest
  /-- Check every coloring before it is returned. -/
  validate : Bool := true
  deriving DecidableEq, Repr

/-- Settings of sparse storage. -/
structure SparseConfig where
  /-- Sorted slots per row of a draft before new entries spill over. -/
  numSlots : Nat := 5
  /-- Row width: entries lie below it, and shared and ghost rows have this capacity. -/
  maxEntries : Nat := 64
  /-- Spare cells added whenever the exclusive region grows. -/
  reserveChunk : Nat := 8192
  deriving DecidableEq, Repr

/-- The longest row that a store can describe: its length fits 16 bits. -/
def maxRowLength : Nat := 65535

theorem maxRowLength_eq : maxRowLength = (Offset.maxCount 16).toNat := by decide

namespace SparseConfig

/-- Check the slot count, then the reserve, then the row width. -/
def check (config : SparseConfig) : Except Error Unit :=
  if config.numSlots = 0 then .error (.invalidConfig "num_slots must be positive")
  else if config.reserveChunk = 0 then .error (.invalidConfig "reserve_chunk must be positive")
  else if config.maxEntries = 0 ∨ maxRowLength < config.maxEntries then
    .error (.invalidConfig s!"max_entries_per_index must be in 1..={maxRowLength}")
  else .ok ()

end SparseConfig

/-- Settings of a process. -/
structure RuntimeConfig where
  coloring : ColoringConfig := {}
  sparse : SparseConfig := {}
  deriving DecidableEq, Repr

namespace RuntimeConfig

/-- Only the storage settings can be wrong. -/
def check (config : RuntimeConfig) : Except Error Unit := config.sparse.check

end RuntimeConfig

end Subdomain

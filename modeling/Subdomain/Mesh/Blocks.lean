import Subdomain.Mesh.Adjacency
import Subdomain.Ordered.Interval

/-!
# Blocks

A range of ids split into contiguous blocks, one per rank, and the part of an adjacency that a block
covers, in compressed rows.
-/

namespace Subdomain

/-- The ids below a number in contiguous blocks; the first blocks take the remainder, one id each. -/
structure Blocks where
  /-- Number of ids. -/
  total : Nat
  /-- Number of blocks. -/
  size : Nat
  size_pos : 0 < size := by omega
  deriving DecidableEq, Repr

namespace Blocks

/-- The ids below a number in so many blocks, at least one. -/
def split (total size : Nat) : Blocks where
  total := total
  size := max size 1

/-- The ids of a block. A rank past the last block has an empty interval. -/
def interval (blocks : Blocks) (rank : Nat) : Interval :=
  let share := blocks.total / blocks.size
  let remainder := blocks.total % blocks.size
  let start := rank * share + min rank remainder
  ⟨start, min (start + share + if rank < remainder then 1 else 0) blocks.total⟩

/-- The block that holds an id. -/
def owner? (blocks : Blocks) (id : Nat) : Option Nat :=
  (List.range blocks.size).find? fun rank => decide (id ∈ blocks.interval rank)

/-- Where each block starts, and the number of ids after the last. -/
def offsets (blocks : Blocks) : List Nat :=
  (List.range blocks.size).map (fun rank => (blocks.interval rank).start) ++ [blocks.total]

end Blocks

/-- The rows of an adjacency that one block covers. -/
structure GraphBlock where
  /-- Where each rank's block starts, and the number of ids after the last. -/
  blockStarts : List Nat
  /-- Where each row starts in `targets`, and their number after the last. -/
  rowStarts : List Nat
  /-- The neighbors of the block's cells, row after row. -/
  targets : List EntityId
  rank : Rank
  deriving DecidableEq, Repr

namespace GraphBlock

/-- A start and, after each length, where the next run starts. -/
def runningStarts (start : Nat) : List Nat → List Nat
  | [] => [start]
  | length :: lengths => start :: runningStarts (start + length) lengths

/-- The neighbors of each cell of a rank's block, without the cell itself. -/
def ofAdjacency (adjacency : Adjacency) (blocks : Blocks) (rank : Rank) (thruDim : Nat) :
    GraphBlock :=
  let rows := (blocks.interval rank.toNat).toList.map fun number =>
    let cell : EntityId := .ofNat number
    (adjacency.neighbors (.singleton cell) thruDim).toList.filter (· != cell)
  { blockStarts := blocks.offsets
    rowStarts := runningStarts 0 (rows.map List.length)
    targets := rows.flatten
    rank }

/-- The ids of the block. The rank has to be one of the blocks. -/
def localIds (block : GraphBlock) : Except Error Interval :=
  match block.blockStarts[block.rank.toNat]?, block.blockStarts[block.rank.toNat + 1]? with
  | some start, some stop => .ok ⟨start, stop⟩
  | _, _ => .error (.defect .indexOutOfRange)

/-- Number of cells in the block. -/
def numLocal (block : GraphBlock) : Nat := block.rowStarts.length - 1

/-- The neighbors of the cell at a position of the block. The position has to exist, and its row to lie
within `targets`. -/
def neighborsOf (block : GraphBlock) (position : Nat) : Except Error (List EntityId) :=
  match block.rowStarts[position]?, block.rowStarts[position + 1]? with
  | some start, some stop =>
    if start ≤ stop ∧ stop ≤ block.targets.length then
      .ok ((block.targets.drop start).take (stop - start))
    else .error (.defect .indexOutOfRange)
  | _, _ => .error (.defect .indexOutOfRange)

end GraphBlock

end Subdomain

import Subdomain.Halo.Tags
import Subdomain.Mesh.Blocks
import Subdomain.Message.Exchange

/-!
# Partitions

A partition assigns a rank to every cell. Each rank decides for the cells of its block, and the cells
are then shipped to their ranks, where they form the primary sets.
-/

namespace Subdomain

/-- The rank that each of some cells is assigned to. -/
abbrev Assignment := SortedMap EntityId Rank

namespace Assignment

/-- Keep every cell of a block on the rank that holds the block. -/
def keep (seat : Seat) (block : GraphBlock) : Except Error Assignment := do
  let cells ← block.localIds
  return .ofList (cells.toList.map fun cell => (.ofNat cell, seat.rank))

/-- Assign the cells of a block by a table, which has to give each a rank of the group. -/
def ofTable (seat : Seat) (block : GraphBlock) (table : Assignment) : Except Error Assignment := do
  let cells ← block.localIds
  let entries ← cells.toList.mapM fun number => do
    let cell : EntityId := .ofNat number
    match table.get? cell with
    | some rank =>
      if rank < seat.size then return (cell, rank)
      else throw (.invalidConfig s!"cell {cell} assigned to rank {rank} of {seat.size}")
    | none => throw (.unownedEntity cell)
  return .ofList entries

/-- The cells assigned to a rank, in ascending order. -/
def cellsOf (assignment : Assignment) (rank : Rank) : List EntityId :=
  (assignment.toList.filter fun (_, assigned) => assigned == rank).map Prod.fst

/-- Ship each cell to its rank and get the cells shipped here. A rank with a cell for a rank outside
the group takes part before it fails, so that no peer is left waiting. -/
def redistribute (seat : Seat) (assignment : Assignment) : Collective IdSet := do
  let received ← Exchange.allToAll seat (seat.ranks.map (cellsOf assignment)) Tags.redistribution
  match assignment.toList.find? fun (_, rank) => decide (seat.size ≤ rank) with
  | some (cell, _) =>
      throw (.invalidConfig s!"cell {cell} assigned to a rank outside 0..{seat.size}")
  | none => return .ofList received.flatten

end Assignment

end Subdomain

import Subdomain.Halo.SummaryWords
import Subdomain.Message.Exchange

/-!
# Gathering

Collectives that give every rank what every rank contributed.
-/

namespace Subdomain

namespace Gather

/-- Every rank's summary. -/
def summaries (seat : Seat) (summary : Summary) (tag : Tag) :
    Collective (SortedMap Rank Summary) := do
  let all ← Exchange.allGather seat summary.encode tag
  let entries ← Collective.ofExcept ((seat.ranks.zip all).mapM fun (rank, words) => do
    match ← Summary.decode? words with
    | some summary => return (rank, summary)
    | none => throw (.commError rank "malformed coloring info"))
  return .ofList entries

/-- Every rank's id set. -/
def idSets (seat : Seat) (ids : IdSet) (tag : Tag) : Collective (SortedMap Rank IdSet) := do
  let all ← Exchange.allGather seat ids.toList tag
  return .ofList ((seat.ranks.zip all).map fun (rank, ids) => (rank, .ofList ids))

/-- Every rank's number, in rank order. -/
def sizes (seat : Seat) (size : UInt64) (tag : Tag) : Collective (List UInt64) := do
  let all ← Exchange.allGather seat [size] tag
  Collective.ofExcept ((seat.ranks.zip all).mapM fun
    | (_, [size]) => .ok size
    | (rank, words) => .error (.messageSizeMismatch rank 8 (words.length * 8)))

/-- For every other rank whose id set overlaps this one's, the overlap. -/
def overlaps (seat : Seat) (ids : IdSet) (tag : Tag) : Collective (SortedMap Rank IdSet) := do
  let all ← Exchange.allGather seat ids.toList tag
  return .ofList ((seat.ranks.zip all).filterMap fun (rank, others) =>
    let common := SortedSet.ofList others ∩ ids
    if rank = seat.rank ∨ common.isEmpty then none else some (rank, common))

end Gather

end Subdomain

import Subdomain.Message.Group
import Subdomain.Message.Record
import Subdomain.Memory

/-!
# Exchanges

The one collective that every other is built from: each rank has a buffer of records for each rank
and gets the buffers meant for it. Counts travel first, under the tag of the exchange, and are
received from every peer; payloads follow under the next tag, and are sent and awaited only where
the count is not zero. A rank's buffer for itself does not travel.

All messages of a stage are received before an error of the stage is reported, so a rank that fails in
a stage leaves none of its messages behind. A rank that refuses its own buffers ends before both stages.
-/

namespace Subdomain

namespace Exchange

/-- Send messages under one tag. -/
def post (tag : Tag) : List (Rank × Bytes) → Collective Unit
  | [] => pure ()
  | (dst, body) :: rest => do
    Collective.send dst tag body
    post tag rest

/-- Receive one message under one tag from each of some ranks. -/
def collect (tag : Tag) : List Rank → Collective (List (Rank × Option Bytes))
  | [] => pure []
  | src :: rest => do
    let body ← Collective.receive src tag
    let bodies ← collect tag rest
    return (src, body) :: bodies

/-- Read a peer's count. -/
def readCount (peer : Rank) : Option Bytes → Except Error (Rank × UInt64)
  | none => .error (.commError peer s!"failed to receive size from rank {peer}")
  | some body =>
    if body.length = Record.size UInt64 then .ok (peer, Record.decode body)
    else .error (.messageSizeMismatch peer (Record.size UInt64) body.length)

/-- Read a peer's payload of an announced number of records, received under a tag. -/
def readPayload {ρ : Type} [Record ρ] (tag : Tag) (peer : Rank) (count : UInt64) :
    Option Bytes → Except Error (Rank × List ρ)
  | none => .error (.commError peer s!"no payload from rank {peer} (tag {tag})")
  | some body =>
    let expected := count.toNat * Record.size ρ
    if body.length = expected then .ok (peer, Record.decodeMany count.toNat body)
    else .error (.messageSizeMismatch peer expected body.length)

variable {ρ : Type} [Record ρ]

/-- Tell every peer how many records to expect, and learn the same. -/
def counts (seat : Seat) (tag : Tag) (outgoing : List (Rank × List ρ)) :
    Collective (List (Rank × UInt64)) := do
  post tag (outgoing.map fun (peer, records) =>
    (peer, Record.encode (UInt64.ofNat records.length)))
  let bodies ← collect tag seat.peers
  Collective.ofExcept (bodies.mapM fun (peer, body) => readCount peer body)

/-- Send the records that there are, and receive those that were announced. -/
def payloads (tag : Tag) (outgoing : List (Rank × List ρ)) (expected : List (Rank × UInt64)) :
    Collective (List (Rank × List ρ)) := do
  if expected.any fun (_, count) => maxAllocationBytes < count.toNat * Record.size ρ then
    throw (.defect .lengthOverflow)
  post tag ((outgoing.filter fun (_, records) => !records.isEmpty).map fun (peer, records) =>
    (peer, Record.encodeMany records))
  let bodies ← collect tag (expected.map Prod.fst)
  Collective.ofExcept ((expected.zip bodies).mapM fun ((peer, count), _, body) =>
    readPayload tag peer count body)

/-- Whether memory can hold a buffer of these records. -/
def fits (records : List ρ) : Bool :=
  decide (records.length ≤ maxWord) &&
    decide (records.length * Record.size ρ ≤ maxAllocationBytes)

/-- Refuse buffers that could not have been built, then a number of buffers other than one per
rank. -/
def checkBuffers (seat : Seat) (buffers : List (List ρ)) : Except Error Unit :=
  if buffers.all fits then
    if buffers.length = seat.size.toNat then .ok ()
    else .error (.sendBufferCount seat.size.toNat buffers.length)
  else .error (.defect .lengthOverflow)

/-- Send each rank its buffer and get what each rank has for this one, in rank order. There has to be
one buffer per rank. -/
def allToAll (seat : Seat) (buffers : List (List ρ)) (tag : Tag) :
    Collective (List (List ρ)) := do
  Collective.ofExcept (checkBuffers seat buffers)
  let addressed := seat.ranks.zip buffers
  let outgoing := addressed.filter fun (peer, _) => peer != seat.rank
  let announced ← counts seat tag outgoing
  let received ← payloads (tag + 1) outgoing (announced.filter fun (_, count) => count != 0)
  return addressed.map fun (rank, own) =>
    if rank = seat.rank then own else (received.lookup rank).getD []

/-- Send every rank the same records and get every rank's, in rank order. -/
def allGather (seat : Seat) (records : List ρ) (tag : Tag) : Collective (List (List ρ)) :=
  allToAll seat (List.replicate seat.size.toNat records) tag

/-- The ranks with a buffer that is not empty. -/
def activeRanks (buffers : List (List ρ)) : List Nat :=
  (buffers.zipIdx.filter fun (records, _) => !records.isEmpty).map Prod.snd

end Exchange

end Subdomain

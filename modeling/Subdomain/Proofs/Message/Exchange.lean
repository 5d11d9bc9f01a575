import Mathlib.Data.List.Nodup
import Subdomain.Proofs.Message.Round
import Subdomain.Proofs.Outcome

/-!
# Exchanges deliver

An exchange is two rounds: the counts travel between all pairs of ranks, the payloads between those
pairs that announced one.  Whatever the tags, every rank gets from every rank the buffer meant for it,
and no message is left behind.  Nothing else can happen under any schedule.
-/

namespace Subdomain

namespace Seat

variable {size : Rank}

@[simp] theorem mem_peers {seat : Seat} {rank : Rank} :
    rank ∈ seat.peers ↔ rank < seat.size ∧ rank ≠ seat.rank := by
  simp [peers, ranks]

theorem nodup_ranksBelow (size : Rank) : (ranksBelow size).Nodup := by
  apply List.Nodup.map_on _ List.nodup_range
  intro first firstInside second secondInside same
  apply Decidable.byContradiction
  intro different
  have bound := size.toNat_lt
  rw [List.mem_range] at firstInside secondInside
  exact Group.rankAt_ne (Nat.lt_trans firstInside bound) (Nat.lt_trans secondInside bound)
    different same

theorem map_rank_all (size : Rank) : (all size).map rank = ranksBelow size := by
  rw [all, List.map_map]
  have ranks : (ranksBelow size).attach.map (fun member => id member.val) =
      (ranksBelow size).map id := List.attach_map_val
  rwa [List.map_id] at ranks

end Seat

namespace Exchange

open Subdomain.Group

variable {ρ : Type} [Record ρ] {size : Rank} {tag : Tag}

theorem bodiesFor_map {ranks : List Rank} (distinct : ranks.Nodup) (body : Rank → Bytes)
    (dst : Rank) :
    bodiesFor (ranks.map fun rank => (rank, body rank)) dst =
      if dst ∈ ranks then [body dst] else [] := by
  induction ranks with
  | nil => rfl
  | cons head ranks ih =>
      rcases List.nodup_cons.1 distinct with ⟨apart, distinct⟩
      rw [List.map_cons, bodiesFor_cons, ih distinct]
      by_cases same : head = dst
      · subst same
        simp [apart]
      · simp [same, Ne.symm same]

/-- A round between those pairs of ranks of which the one has something for the other. -/
theorem settles_pairs (size : Rank) (tag : Tag) (sends : Rank → Rank → Bool)
    (body : Rank → Rank → Bytes) :
    Settles size
      (fun seat => (round tag
        ((seat.peers.filter (sends seat.rank)).map fun dst => (dst, body seat.rank dst))
        (seat.peers.filter fun src => sends src seat.rank)).run)
      (fun seat => .ok ((seat.peers.filter fun src => sends src seat.rank).map
        fun src => (src, some (body src seat.rank)))) := by
  have sent : ∀ src dst : Rank, bodiesFor (Seat.atRank size (fun seat =>
      (seat.peers.filter (sends seat.rank)).map fun dst => (dst, body seat.rank dst)) src) dst =
      if src < size ∧ dst < size ∧ dst ≠ src ∧ sends src dst then [body src dst] else [] := by
    intro src dst
    by_cases below : src < size
    · rw [Seat.atRank, dif_pos below]
      have distinct : ((Seat.peers ⟨src, size, below⟩).filter (sends src)).Nodup :=
        ((Seat.nodup_ranksBelow size).filter _).filter _
      rw [bodiesFor_map distinct]
      simp [below, and_assoc]
    · simp [Seat.atRank, below, bodiesFor]
  apply settles_round
  · intro seat _
    exact ((Seat.nodup_ranksBelow seat.size).filter _).filter _
  · intro seat inGroup src member
    rw [List.mem_filter, Seat.mem_peers, inGroup] at member
    rw [sent, if_pos]
    exact ⟨member.1.1, inGroup ▸ seat.rank_lt, Ne.symm member.1.2, member.2⟩
  · intro src dst heard
    rw [sent] at heard
    split at heard
    · next pair =>
      exists ⟨dst, size, pair.2.1⟩
      simp [pair, Ne.symm pair.2.2.1]
    · exact absurd rfl heard

/-! ## One exchange -/

/-- The buffer for a rank; a rank outside the group has none. -/
def bufferFor {α : Type} (buffers : List (List α)) (rank : Rank) : List α :=
  (buffers[rank.toNat]?).getD []

theorem zip_ranksBelow {α : Type} {buffers : List (List α)}
    (length : buffers.length = size.toNat) :
    (ranksBelow size).zip buffers =
      (ranksBelow size).map fun rank => (rank, bufferFor buffers rank) := by
  apply List.ext_getElem
  · simp [length]
  · intro position inZip _
    have inside : position < buffers.length := by
      rw [List.length_zip] at inZip
      omega
    have ranked : position < (ranksBelow size).length := by
      rwa [length_ranksBelow, ← length]
    have small : position < UInt64.size := Nat.lt_trans (length ▸ inside) size.toNat_lt
    have number : (UInt64.ofNat position).toNat = position := UInt64.toNat_ofNat_of_lt' small
    rw [List.getElem_zip, List.getElem_map]
    have rank : (ranksBelow size)[position] = UInt64.ofNat position := by simp [ranksBelow]
    simp [rank, bufferFor, number, inside]

/-- What a rank has for the others. -/
theorem outgoing_eq {α : Type} {seat : Seat} {buffers : List (List α)}
    (length : buffers.length = seat.size.toNat) :
    (seat.ranks.zip buffers).filter (fun (peer, _) => peer != seat.rank) =
      seat.peers.map fun dst => (dst, bufferFor buffers dst) := by
  rw [Seat.ranks, zip_ranksBelow length, List.filter_map]
  rfl

/-- What an exchange does once the buffers are in order. -/
def transfer (seat : Seat) (buffers : List (List ρ)) (tag : Tag) : Collective (List (List ρ)) := do
  let addressed := seat.ranks.zip buffers
  let outgoing := addressed.filter fun (peer, _) => peer != seat.rank
  let announced ← counts seat tag outgoing
  let received ← payloads (tag + 1) outgoing (announced.filter fun (_, count) => count != 0)
  return addressed.map fun (rank, own) =>
    if rank = seat.rank then own else (received.lookup rank).getD []

theorem allToAll_eq (seat : Seat) (buffers : List (List ρ)) (tag : Tag) :
    allToAll seat buffers tag =
      Collective.ofExcept (checkBuffers seat buffers) >>= fun _ => transfer seat buffers tag := rfl

/-- The buffers of a group are in order: one for each rank, and none larger than memory. -/
def Ready (size : Rank) (buffers : List (List ρ)) : Prop :=
  buffers.length = size.toNat ∧ ∀ records ∈ buffers, fits records = true

instance (size : Rank) (buffers : List (List ρ)) : Decidable (Ready size buffers) :=
  inferInstanceAs (Decidable (_ ∧ _))

theorem checkBuffers_eq_ok_iff {seat : Seat} {buffers : List (List ρ)} :
    checkBuffers seat buffers = .ok () ↔ Ready seat.size buffers := by
  rw [checkBuffers, Ready]
  by_cases fitting : buffers.all fits = true
  · rw [if_pos fitting]
    by_cases length : buffers.length = seat.size.toNat
    · rw [if_pos length]
      simpa [length] using fitting
    · rw [if_neg length]
      constructor
      · intro done
        cases done
      · intro ready
        exact absurd ready.1 length
  · rw [if_neg fitting]
    constructor
    · intro done
      cases done
    · intro ready
      exact absurd (List.all_eq_true.2 ready.2) fitting

theorem readCount_encode (peer : Rank) (count : UInt64) :
    readCount peer (some (Record.encode count)) = .ok (peer, count) := by
  simp [readCount, Record.length_encode, Record.decode_encode]

/-- The number of records that memory holds fits in a word. -/
theorem length_le_of_fits {records : List ρ} (fitting : fits records = true) :
    records.length ≤ maxWord := by
  simp only [fits, Bool.and_eq_true, decide_eq_true_eq] at fitting
  exact fitting.1

theorem toNat_length {records : List ρ} (fitting : fits records = true) :
    (UInt64.ofNat records.length).toNat = records.length := by
  apply UInt64.toNat_ofNat_of_lt'
  exact Nat.lt_of_le_of_lt (length_le_of_fits fitting) (by decide)

theorem readPayload_encodeMany (tag : Tag) (peer : Rank) {records : List ρ}
    (fitting : fits records = true) :
    readPayload tag peer (UInt64.ofNat records.length) (some (Record.encodeMany records)) =
      .ok (peer, records) := by
  simp [readPayload, toNat_length fitting, Record.decodeMany_encodeMany]

theorem fits_nil : fits ([] : List ρ) = true := by simp [fits]

theorem fits_of_length_le {records : List ρ} {bound width : Nat} (length : records.length ≤ bound)
    (size : Record.size ρ ≤ width) (inMemory : bound * width ≤ maxAllocationBytes)
    (wide : 0 < width) : fits records = true := by
  have bytes : records.length * Record.size ρ ≤ bound * width := Nat.mul_le_mul length size
  have count : bound ≤ bound * width := Nat.le_mul_of_pos_right bound wide
  simp only [fits, Bool.and_eq_true, decide_eq_true_eq]
  constructor
  · exact Nat.le_trans length (Nat.le_trans count (Nat.le_trans inMemory (by decide)))
  · exact Nat.le_trans bytes inMemory

theorem fits_bufferFor {buffers : List (List ρ)} (fitting : ∀ records ∈ buffers, fits records = true)
    (rank : Rank) : fits (bufferFor buffers rank) = true := by
  rw [bufferFor]
  cases found : buffers[rank.toNat]? with
  | none => exact fits_nil
  | some records => exact fitting records (List.mem_of_getElem? found)

/-- A count is zero only for a buffer without records. -/
theorem ofNat_length_bne_zero {records : List ρ} (fitting : fits records = true) :
    (UInt64.ofNat records.length != 0) = !records.isEmpty := by
  have number := toNat_length fitting
  cases records with
  | nil => rfl
  | cons head rest =>
      rw [List.isEmpty_cons, Bool.not_false, bne_iff_ne]
      intro zero
      rw [zero] at number
      simp at number

section Transfer

variable (buffers : Rank → List (List ρ))

/-- Whether a rank has records for another. -/
def sendsTo (src dst : Rank) : Bool := !(bufferFor (buffers src) dst).isEmpty

omit [Record ρ] in
/-- The messages of the first round: every rank tells every other how many records to expect. -/
theorem settles_counts :
    Settles size
      (fun seat => (counts seat tag
        (seat.peers.map fun dst => (dst, bufferFor (buffers seat.rank) dst))).run)
      (fun seat => .ok (seat.peers.map fun src =>
        (src, UInt64.ofNat (bufferFor (buffers src) seat.rank).length))) := by
  let body (src dst : Rank) : Bytes :=
    Record.encode (UInt64.ofNat (bufferFor (buffers src) dst).length)
  have pairs := settles_pairs size tag (fun _ _ => true) body
  simp only [List.filter_true] at pairs
  have split : ∀ seat : Seat, counts seat tag
      (seat.peers.map fun dst => (dst, bufferFor (buffers seat.rank) dst)) =
      round tag (seat.peers.map fun dst => (dst, body seat.rank dst)) seat.peers >>= fun bodies =>
        Collective.ofExcept (bodies.mapM fun message => readCount message.1 message.2) := by
    intro seat
    simp only [counts, round, bind_assoc, List.map_map]
    rfl
  simp only [split]
  apply pairs.andThen
  apply (settles_done _).congr
  · intro seat _
    rfl
  · intro seat _
    rw [List.mapM_map]
    exact (mapM_eq_ok_map fun src _ => readCount_encode src _).symm

/-- The ranks that have records for a rank. -/
def sendersTo (seat : Seat) : List Rank := seat.peers.filter fun src => sendsTo buffers src seat.rank

/-- The messages of the second round: the records themselves, between the ranks that announced them. -/
theorem settles_payloads (fitting : ∀ rank, ∀ records ∈ buffers rank, fits records = true) :
    Settles size
      (fun seat => (payloads tag
        (seat.peers.map fun dst => (dst, bufferFor (buffers seat.rank) dst))
        ((sendersTo buffers seat).map fun src =>
          (src, UInt64.ofNat (bufferFor (buffers src) seat.rank).length))).run)
      (fun seat => .ok ((sendersTo buffers seat).map fun src =>
        (src, bufferFor (buffers src) seat.rank))) := by
  have fits : ∀ src dst, fits (bufferFor (buffers src) dst) = true :=
    fun src dst => fits_bufferFor (fitting src) dst
  let body (src dst : Rank) : Bytes := Record.encodeMany (bufferFor (buffers src) dst)
  have pairs := settles_pairs size tag (sendsTo buffers) body
  have split : ∀ seat : Seat, payloads tag
      (seat.peers.map fun dst => (dst, bufferFor (buffers seat.rank) dst))
      ((sendersTo buffers seat).map fun src =>
        (src, UInt64.ofNat (bufferFor (buffers src) seat.rank).length)) =
      round tag ((seat.peers.filter (sendsTo buffers seat.rank)).map
          fun dst => (dst, body seat.rank dst)) (sendersTo buffers seat) >>= fun bodies =>
        Collective.ofExcept ((((sendersTo buffers seat).map fun src =>
          (src, UInt64.ofNat (bufferFor (buffers src) seat.rank).length)).zip bodies).mapM
            fun paired => readPayload tag paired.1.1 paired.1.2 paired.2.2) := by
    intro seat
    have addressable : ¬ ((sendersTo buffers seat).map fun src =>
        (src, UInt64.ofNat (bufferFor (buffers src) seat.rank).length)).any (fun announced =>
          decide (maxAllocationBytes < announced.2.toNat * Record.size ρ)) = true := by
      rw [List.any_map, List.any_eq_true]
      rintro ⟨src, _, large⟩
      have small := fits src seat.rank
      simp only [Exchange.fits, Bool.and_eq_true, decide_eq_true_eq] at small
      simp only [Function.comp, toNat_length (fits src seat.rank), decide_eq_true_eq] at large
      exact absurd small.2 (Nat.not_le.2 large)
    have messages : ((seat.peers.map fun dst => (dst, bufferFor (buffers seat.rank) dst)).filter
        fun outgoing => !outgoing.2.isEmpty).map (fun outgoing =>
          (outgoing.1, Record.encodeMany outgoing.2)) =
        (seat.peers.filter (sendsTo buffers seat.rank)).map fun dst => (dst, body seat.rank dst) := by
      rw [List.filter_map, List.map_map]
      rfl
    have expected : ((sendersTo buffers seat).map fun src =>
        (src, UInt64.ofNat (bufferFor (buffers src) seat.rank).length)).map Prod.fst =
        sendersTo buffers seat := by
      rw [List.map_map]
      exact List.map_id _
    rw [payloads, if_neg addressable, messages, expected]
    simp only [round, bind_assoc]
  simp only [split]
  apply pairs.andThen
  apply (settles_done _).congr
  · intro seat _
    rfl
  · intro seat _
    change _ = List.mapM _ (List.zip _ ((sendersTo buffers seat).map _))
    rw [List.zip_map', List.mapM_map]
    exact (mapM_eq_ok_map fun src _ => readPayload_encodeMany tag src (fits src seat.rank)).symm

theorem lookup_map {α : Type} (value : Rank → α) (ranks : List Rank) (rank : Rank) :
    (ranks.map fun rank => (rank, value rank)).lookup rank =
      if rank ∈ ranks then some (value rank) else none := by
  induction ranks with
  | nil => rfl
  | cons head ranks ih =>
      rw [List.map_cons, List.lookup_cons, ih]
      by_cases same : rank = head
      · simp [same]
      · have apart : (rank == head) = false := by simpa using same
        simp [apart, same]

/-- What every rank gets: from each rank the buffer meant for it. -/
theorem settles_transfer (lengths : ∀ rank, rank < size → (buffers rank).length = size.toNat)
    (fitting : ∀ rank, ∀ records ∈ buffers rank, fits records = true) :
    Settles size (fun seat => (transfer seat (buffers seat.rank) tag).run)
      (fun seat => .ok ((ranksBelow size).map fun src => bufferFor (buffers src) seat.rank)) := by
  have split : ∀ seat : Seat, seat.size = size → transfer seat (buffers seat.rank) tag =
      counts seat tag (seat.peers.map fun dst => (dst, bufferFor (buffers seat.rank) dst)) >>=
        fun announced => payloads (tag + 1)
          (seat.peers.map fun dst => (dst, bufferFor (buffers seat.rank) dst))
          (announced.filter fun announced => announced.2 != 0) >>=
        fun received => pure ((ranksBelow size).map fun rank =>
          if rank = seat.rank then bufferFor (buffers seat.rank) rank
          else (received.lookup rank).getD []) := by
    intro seat inGroup
    have length : (buffers seat.rank).length = seat.size.toNat := by
      rw [inGroup]
      exact lengths seat.rank (inGroup ▸ seat.rank_lt)
    rw [transfer]
    simp only [outgoing_eq length]
    rw [Seat.ranks, inGroup, zip_ranksBelow (lengths seat.rank (inGroup ▸ seat.rank_lt))]
    simp only [List.map_map]
    rfl
  have announced : ∀ seat : Seat, (seat.peers.map fun src =>
      (src, UInt64.ofNat (bufferFor (buffers src) seat.rank).length)).filter
        (fun announced => announced.2 != 0) =
      (sendersTo buffers seat).map fun src =>
        (src, UInt64.ofNat (bufferFor (buffers src) seat.rank).length) := by
    intro seat
    rw [List.filter_map, sendersTo]
    congr 2
    funext src
    exact ofNat_length_bne_zero (fits_bufferFor (fitting src) seat.rank)
  have whole : Settles size (fun seat => (counts seat tag
      (seat.peers.map fun dst => (dst, bufferFor (buffers seat.rank) dst)) >>=
        fun announced => payloads (tag + 1)
          (seat.peers.map fun dst => (dst, bufferFor (buffers seat.rank) dst))
          (announced.filter fun announced => announced.2 != 0) >>=
        fun received => pure ((ranksBelow size).map fun rank =>
          if rank = seat.rank then bufferFor (buffers seat.rank) rank
          else (received.lookup rank).getD [])).run)
      (fun seat => .ok ((ranksBelow size).map fun rank =>
        if rank = seat.rank then bufferFor (buffers seat.rank) rank
        else (((sendersTo buffers seat).map fun src =>
          (src, bufferFor (buffers src) seat.rank)).lookup rank).getD [])) := by
    apply (settles_counts buffers).andThen
    simp only [announced]
    apply (settles_payloads buffers fitting).andThen
    exact settles_done _
  apply whole.congr
  · intro seat inGroup
    rw [split seat inGroup]
  · intro seat inGroup
    congr 1
    apply List.map_congr_left
    intro rank member
    have below := mem_ranksBelow.1 member
    simp only [lookup_map, sendersTo, sendsTo, List.mem_filter, Seat.mem_peers, inGroup]
    by_cases own : rank = seat.rank
    · rw [if_pos own, own]
    · rw [if_neg own]
      cases bufferFor (buffers rank) seat.rank with
      | nil => simp
      | cons head rest => simp [below, own]

end Transfer

/-- What a rank gets from every rank of its group. -/
def received {α : Type} (size : Rank) (buffers : Seat → List (List α)) (seat : Seat) :
    List (List α) :=
  (Seat.all size).map fun sender => bufferFor (buffers sender) seat.rank

theorem settles_allToAll {buffers : Seat → List (List ρ)}
    (ready : ∀ seat : Seat, seat.size = size → Ready size (buffers seat)) :
    Settles size (fun seat => (allToAll seat (buffers seat) tag).run)
      (fun seat => .ok (received size buffers seat)) := by
  have lengths : ∀ rank, rank < size → (Seat.atRank size buffers rank).length = size.toNat := by
    intro rank below
    rw [Seat.atRank, dif_pos below]
    exact (ready ⟨rank, size, below⟩ rfl).1
  have fitting : ∀ rank, ∀ records ∈ Seat.atRank size buffers rank, fits records = true := by
    intro rank records member
    rw [Seat.atRank] at member
    split at member
    · next below => exact (ready ⟨rank, size, below⟩ rfl).2 records member
    · cases member
  apply (settles_transfer (Seat.atRank size buffers) lengths fitting).congr
  · intro seat inGroup
    have accepted : checkBuffers seat (buffers seat) = .ok () :=
      checkBuffers_eq_ok_iff.2 (inGroup ▸ ready seat inGroup)
    rw [allToAll_eq, accepted, Seat.atRank_rank inGroup]
    rfl
  · intro seat _
    rw [received, ← Seat.map_rank_all, List.map_map]
    congr 1
    apply List.map_congr_left
    intro sender member
    rw [Function.comp, Seat.atRank_rank (Seat.mem_all.1 member)]

/-- An exchange comes to an end on every rank exactly when all buffers are in order, and the rest goes
on with what was received. -/
theorem completes_allToAll_iff {β : Type} {patience : Patience} {buffers : Seat → List (List ρ)}
    {next : Seat → List (List ρ) → Collective β} {values : Seat → β} :
    Completes patience size (fun seat => allToAll seat (buffers seat) tag >>= next seat) values ↔
      (∀ seat : Seat, seat.size = size → Ready size (buffers seat)) ∧
        Completes patience size (fun seat => next seat (received size buffers seat)) values := by
  constructor
  · intro completes
    have checked := completes
    simp only [allToAll_eq, bind_assoc] at checked
    rcases completes_ofExcept_iff.1 checked with ⟨_, accepted, _⟩
    have ready : ∀ seat : Seat, seat.size = size → Ready size (buffers seat) := by
      intro seat inGroup
      exact inGroup ▸ checkBuffers_eq_ok_iff.1 (accepted seat inGroup)
    exact ⟨ready, (completes_settled_iff (settles_allToAll ready)).1 completes⟩
  · rintro ⟨ready, completes⟩
    exact (completes_settled_iff (settles_allToAll ready)).2 completes

/-! ## Exchanges one after the other -/

section Calls

variable {κ : Type} {records : κ → Type} [∀ kind, Record (records kind)]

/-- An exchange in which the whole group takes part: the kind of its records, its tag, and what every
rank has for every other. -/
structure Call (κ : Type) (records : κ → Type) where
  kind : κ
  tag : Tag
  buffers : Rank → List (List (records kind))

/-- The result of an exchange, with the kind of its records. -/
abbrev Delivery (κ : Type) (records : κ → Type) := (kind : κ) × List (List (records kind))

/-- One rank's part in some exchanges, with the results of all of them. -/
def perform (seat : Seat) : List (Call κ records) → Collective (List (Delivery κ records))
  | [] => pure []
  | call :: rest => do
    let received ← allToAll seat (call.buffers seat.rank) call.tag
    let deliveries ← perform seat rest
    return ⟨call.kind, received⟩ :: deliveries

/-- What some exchanges have to give a rank: of each, what every rank had for it. -/
def delivered (size : Rank) (calls : List (Call κ records)) (rank : Rank) :
    List (Delivery κ records) :=
  calls.map fun call => ⟨call.kind, (ranksBelow size).map fun src => bufferFor (call.buffers src) rank⟩

theorem settles_perform {calls : List (Call κ records)}
    (ready : ∀ call ∈ calls, ∀ rank, rank < size → Ready size (call.buffers rank)) :
    Settles size (fun seat => (perform seat calls).run)
      (fun seat => .ok (delivered size calls seat.rank)) := by
  induction calls with
  | nil => exact settles_done _
  | cons call calls ih =>
      have first : Settles size
          (fun seat => (allToAll seat (call.buffers seat.rank) call.tag).run) _ :=
        settles_allToAll fun seat inGroup =>
          ready call List.mem_cons_self seat.rank (inGroup ▸ seat.rank_lt)
      have others := ih fun other member => ready other (List.mem_cons_of_mem _ member)
      have whole : Settles size (fun seat => (perform seat (call :: calls)).run) _ :=
        first.andThen (others.andThen (settles_done _))
      apply whole.congr
      · intro seat _
        rfl
      · intro seat _
        have same : received size (fun seat => call.buffers seat.rank) seat =
            (ranksBelow size).map fun src => bufferFor (call.buffers src) seat.rank := by
          rw [received, ← Seat.map_rank_all, List.map_map]
          rfl
        rw [same]
        rfl

/-- Exchanges do not depend on the order in which the ranks send and receive.  Wherever a schedule has
led, some rank can go on until all have ended; a rank that has ended has exactly what the others had for
it, exchange by exchange; and when all have ended no message is left. -/
theorem perform_delivers {calls : List (Call κ records)}
    (ready : ∀ call ∈ calls, ∀ rank, rank < size → Ready size (call.buffers rank))
    {group : Group (Except Error (List (Delivery κ records)))}
    (reached : Reaches Step (ofCall size fun seat => (perform seat calls).run) group) :
    (Ended group ∨ ∃ next, Step group next) ∧
      (∀ seat : Seat, seat.size = size → ∀ outcome,
        group.programs[seat.rank.toNat]? = some (.done outcome) →
          outcome = .ok (delivered size calls seat.rank)) ∧
      (Ended group → group.mail = ∅) := by
  have steps := (settles_perform ready).reaches
  let outcomes (seat : Seat) : Except Error (List (Delivery κ records)) :=
    .ok (delivered size calls seat.rank)
  have ended : Ended (ofCall size fun seat => .done (outcomes seat)) := ended_ofValues outcomes ∅
  have onward := steps_outcome (numbered_ofCall _) steps ended reached.moves
  refine ⟨?_, ?_, ?_⟩
  · cases Reaches.eq_or_step onward with
    | inl same => exact .inl (same ▸ ended)
    | inr some => exact .inr some
  · intro seat inGroup outcome done
    have kept := onward.moves.done done
    rw [ofCall, List.getElem?_map, Seat.getElem?_all inGroup] at kept
    cases kept
    rfl
  · intro finished
    rw [finished.eq_of_reaches onward.moves]
    rfl

/-- Two ranks exchange twice under one tag; in the second exchange only one of them has records. -/
def twoExchanges : List (Call Unit fun _ => UInt64) :=
  [⟨(), 7, fun rank => [[rank, 5], [rank]]⟩, ⟨(), 7, fun rank => if rank = 0 then [[], [9]] else [[], []]⟩]

theorem perform_delivers_twoExchanges :
    ∃ group, Reaches Step (ofCall 2 fun seat => (perform seat twoExchanges).run) group ∧
      group.mail ≠ ∅ ∧ (Ended group ∨ ∃ next, Step group next) ∧
      (∀ seat : Seat, seat.size = 2 → ∀ outcome,
        group.programs[seat.rank.toNat]? = some (.done outcome) →
          outcome = .ok (delivered 2 twoExchanges seat.rank)) ∧
      (Ended group → group.mail = ∅) := by
  have ready : ∀ call ∈ twoExchanges, ∀ rank, rank < 2 → Ready 2 (call.buffers rank) := by
    intro call member rank _
    simp only [twoExchanges, List.mem_cons, List.not_mem_nil, or_false] at member
    cases member with
    | inl first =>
        subst first
        simp [Ready, fits, maxWord, maxAllocationBytes, Record.size]
    | inr second =>
        subst second
        by_cases zero : rank = 0 <;>
          simp [Ready, fits, zero, maxWord, maxAllocationBytes, Record.size]
  have found : (ofCall 2 fun seat => (perform seat twoExchanges).run).programs[0]? =
      some (.send 1 7 _ _) := rfl
  have begun : Reaches Step (ofCall 2 fun seat => (perform seat twoExchanges).run) _ :=
    .tail (.refl _) (.send found)
  exact ⟨_, begun, by decide, perform_delivers ready begun⟩

end Calls

end Exchange

end Subdomain

import Subdomain.Proofs.Message.Settlement

/-!
# What an exchange leaves behind

An exchange may begin with any messages in the mail, and its calls may fail.  What is in the mail when all
have ended does not depend on the order of their steps: a rank that accepts its own buffers has taken one
message from every other under the tag of the exchange, and one more from each rank whose count it has
gone on with.  Older messages are taken first, so as many of the new ones stay behind.

If nothing was waiting, what stays behind are the counts for ranks that refuse their own buffers: such a
rank ends before it has taken them.
-/

namespace Subdomain

namespace Exchange

open Subdomain.Group

variable {ρ : Type} [Record ρ]

/-! ## What the ranks send and take -/

section Flow

variable (size : Rank) (buffers : Seat → List (List ρ)) (tag : Tag) (mail : Mail)

/-- The count that a rank sends another.  It sends none if it refuses its own buffers. -/
def countSent (seat : Seat) (dst : Rank) : List Bytes :=
  if Ready size (buffers seat) ∧ dst ∈ seat.peers then
    [Record.encode (UInt64.ofNat (bufferFor (buffers seat) dst).length)] else []

/-- The messages under the tag of an exchange that are waiting for a rank or will be sent to it. -/
def countsDue (dst src : Rank) : List Bytes :=
  mail.queue ⟨src, dst, tag⟩ ++ Seat.atRank size (fun sender => countSent size buffers sender dst) src

/-- The ranks from which a rank awaits records.  There is no such list if it does not get so far. -/
def awaits (seat : Seat) : Option (List Rank) :=
  if Ready size (buffers seat) then awaited ρ seat (countsDue size buffers tag mail seat.rank) else none

/-- The records that a rank sends another, if it gets so far. -/
def recordsSent (seat : Seat) (dst : Rank) : List Bytes :=
  if (awaits size buffers tag mail seat).isSome ∧ dst ∈ seat.peers ∧ bufferFor (buffers seat) dst ≠ []
  then [Record.encodeMany (bufferFor (buffers seat) dst)] else []

/-- What a rank sends another in an exchange. -/
def sent (seat : Seat) (dst : Rank) (label : Tag) : List Bytes :=
  if label = tag then countSent size buffers seat dst
  else if label = tag + 1 then recordsSent size buffers tag mail seat dst
  else []

/-- Whether a rank takes a message of another in an exchange, if there is one. -/
def Takes (seat : Seat) (src : Rank) (label : Tag) : Prop :=
  (label = tag ∧ Ready size (buffers seat) ∧ src ∈ seat.peers) ∨
    (label = tag + 1 ∧ src ∈ (awaits size buffers tag mail seat).getD [])

instance (seat : Seat) (src : Rank) (label : Tag) :
    Decidable (Takes size buffers tag mail seat src label) := inferInstanceAs (Decidable (_ ∨ _))

/-- The ledgers with which an exchange begins.  Whatever is in the mail is due, then what the ranks have
to send. -/
def opening (rank : Rank) : Ledger where
  owed entry := Seat.atRank size (fun seat => sent size buffers tag mail seat entry.1 entry.2) rank
  due entry := mail.queue ⟨entry.1, rank, entry.2⟩ ++
    Seat.atRank size (fun seat => sent size buffers tag mail seat rank entry.2) entry.1

/-- How an exchange leaves the ledgers. -/
def Closes (rank : Rank) (after : Ledger) : Prop :=
  after.Clear ∧ ∀ seat : Seat, seat.size = size → seat.rank = rank →
    after = if Ready size (buffers seat) then settled ρ seat tag (opening size buffers tag mail rank)
      else opening size buffers tag mail rank

end Flow

variable {size : Rank} {buffers : Seat → List (List ρ)} {tag : Tag} {mail : Mail} {seat : Seat}

theorem owed_opening (inGroup : seat.size = size) (dst : Rank) (label : Tag) :
    (opening size buffers tag mail seat.rank).owed (dst, label) =
      sent size buffers tag mail seat dst label := by
  simp only [opening, Seat.atRank_rank inGroup]

theorem due_opening (inGroup : seat.size = size) (dst : Rank) (label : Tag) :
    (opening size buffers tag mail dst).due (seat.rank, label) =
      mail.queue ⟨seat.rank, dst, label⟩ ++ sent size buffers tag mail seat dst label := by
  simp only [opening, Seat.atRank_rank inGroup]

theorem due_opening_counts (dst : Rank) :
    (fun src => (opening size buffers tag mail dst).due (src, tag)) =
      countsDue size buffers tag mail dst := by
  funext src
  simp only [opening, countsDue, sent, if_pos]

theorem awaits_of_ready (ready : Ready size (buffers seat)) :
    awaits size buffers tag mail seat =
      awaited ρ seat fun src => (opening size buffers tag mail seat.rank).due (src, tag) := by
  rw [awaits, if_pos ready, due_opening_counts]

theorem owes_opening (ready : Ready seat.size (buffers seat)) :
    Owes seat (buffers seat) tag (opening seat.size buffers tag mail seat.rank) where
  counts dst := by
    rw [owed_opening rfl, sent, if_pos rfl, countSent, announcements, bodiesFor_map seat.nodup_peers]
    simp only [ready, true_and]
  records dst := by
    rw [owed_opening rfl, sent, if_neg (tag_ne_next tag).symm, if_pos rfl, recordsSent,
      awaits_of_ready ready, shipments, bodiesFor_map (seat.nodup_peers.filter _)]
    by_cases goes : (awaited ρ seat fun src =>
        (opening seat.size buffers tag mail seat.rank).due (src, tag)).isSome
    · simp [goes]
    · simp [goes]
  others dst other first second := by
    rw [owed_opening rfl, sent, if_neg first, if_neg second]

/-- A rank that refuses its own buffers sends nothing. -/
theorem clear_opening (refuses : ¬ Ready seat.size (buffers seat)) :
    (opening seat.size buffers tag mail seat.rank).Clear := by
  rintro ⟨dst, label⟩
  have counts : countSent seat.size buffers seat dst = [] := if_neg fun both => refuses both.1
  have records : recordsSent seat.size buffers tag mail seat dst = [] := by
    rw [recordsSent, awaits, if_neg refuses]
    exact if_neg fun goes => nomatch goes.1
  rw [owed_opening rfl, sent, counts, records, ite_self, ite_self]

theorem balances_opening :
    Balances size tag (fun rank after _ => Closes size buffers tag mail rank after)
      (opening size buffers tag mail)
      ⟨(Seat.all size).map fun seat => (allToAll seat (buffers seat) tag).run, mail⟩ := by
  refine ⟨?_, ?_, fun address => rfl⟩
  · rw [List.length_map, Seat.length_all]
  · intro position program found
    rw [List.getElem?_map, Option.map_eq_some_iff] at found
    rcases found with ⟨seat, located, rfl⟩
    rcases Seat.of_getElem?_all located with ⟨inGroup, rfl⟩
    subst inGroup
    rw [Seat.rankAt_toNat]
    have mine : ∀ other : Seat, other.size = seat.size → other.rank = seat.rank → other = seat :=
      fun other size rank => Seat.eq_of_rank size rank
    by_cases ready : Ready seat.size (buffers seat)
    · apply (keeps_allToAll ready (owes_opening ready)).mono
      rintro after _ ⟨clear, rfl⟩
      refine ⟨clear, ?_⟩
      intro other otherInGroup rank
      rw [mine other otherInGroup rank, if_pos ready]
    · obtain ⟨error, refused⟩ : ∃ error, checkBuffers seat (buffers seat) = .error error := by
        cases checked : checkBuffers seat (buffers seat) with
        | error error => exact ⟨error, rfl⟩
        | ok done => exact absurd (checkBuffers_eq_ok_iff.1 checked) ready
      rw [allToAll_eq, refused]
      apply Program.Keeps.done
      refine ⟨clear_opening ready, ?_⟩
      intro other otherInGroup rank
      rw [mine other otherInGroup rank, if_neg ready]

/-- What is due to a rank when it has ended. -/
theorem Closes.due {after : Ledger} (closes : Closes size buffers tag mail seat.rank after)
    (inGroup : seat.size = size) {sender : Seat} (senderInside : sender.size = size) (label : Tag) :
    after.due (sender.rank, label) =
      if Takes size buffers tag mail seat sender.rank label then
        (mail.queue ⟨sender.rank, seat.rank, label⟩ ++
          sent size buffers tag mail sender seat.rank label).tail
      else mail.queue ⟨sender.rank, seat.rank, label⟩ ++
        sent size buffers tag mail sender seat.rank label := by
  rw [closes.2 seat inGroup rfl]
  by_cases ready : Ready size (buffers seat)
  · rw [if_pos ready, due_settled, due_opening senderInside, ← awaits_of_ready ready]
    simp only [Takes, ready, true_and]
  · have takes : ¬ Takes size buffers tag mail seat sender.rank label := by
      rintro (⟨_, accepts, _⟩ | ⟨_, goes⟩)
      · exact ready accepts
      · rw [awaits, if_neg ready] at goes
        cases goes
    rw [if_neg ready, if_neg takes, due_opening senderInside]

/-! ## When all have ended -/

/-- Whatever is still in the mail when all have ended is what is due to the ranks. -/
theorem exists_closing {group : Group (Except Error (List (List ρ)))}
    (reached : Reaches Move
      ⟨(Seat.all size).map fun seat => (allToAll seat (buffers seat) tag).run, mail⟩ group)
    (ended : Ended group) :
    ∃ ledgers, (∀ address, Accounted ledgers group.mail address) ∧
      ∀ seat : Seat, seat.size = size → Closes size buffers tag mail seat.rank (ledgers seat.rank) := by
  rcases balances_opening.reaches (fun _ _ _ closes => closes.1) reached with ⟨ledgers, balances⟩
  refine ⟨ledgers, balances.accounted, ?_⟩
  intro seat inGroup
  rcases balances.exists_program (inGroup ▸ seat.rank_lt) with ⟨program, found⟩
  have keeps := balances.keeps _ program found
  rw [Seat.rankAt_toNat] at keeps
  have done := ended _ (List.mem_of_getElem? found)
  cases keeps with
  | done closes => exact closes
  | send => cases done
  | receive => cases done

theorem queue_of_ended {group : Group (Except Error (List (List ρ)))}
    (reached : Reaches Move
      ⟨(Seat.all size).map fun seat => (allToAll seat (buffers seat) tag).run, mail⟩ group)
    (ended : Ended group) {sender receiver : Seat} (senderInside : sender.size = size)
    (receiverInside : receiver.size = size) (label : Tag) :
    group.mail.queue ⟨sender.rank, receiver.rank, label⟩ =
      if Takes size buffers tag mail receiver sender.rank label then
        (mail.queue ⟨sender.rank, receiver.rank, label⟩ ++
          sent size buffers tag mail sender receiver.rank label).tail
      else mail.queue ⟨sender.rank, receiver.rank, label⟩ ++
        sent size buffers tag mail sender receiver.rank label := by
  rcases exists_closing reached ended with ⟨ledgers, accounted, closes⟩
  have account := accounted ⟨sender.rank, receiver.rank, label⟩
  rw [Accounted, (closes sender senderInside).1, List.append_nil] at account
  rw [← account, (closes receiver receiverInside).due receiverInside senderInside]

/-! ## Where no counts were waiting -/

theorem mem_peers_comm {first second : Seat} (firstInside : first.size = size)
    (secondInside : second.size = size) : second.rank ∈ first.peers ↔ first.rank ∈ second.peers := by
  rw [Seat.mem_peers, Seat.mem_peers, firstInside, secondInside]
  have firstBelow := firstInside ▸ first.rank_lt
  have secondBelow := secondInside ▸ second.rank_lt
  simp [firstBelow, secondBelow, eq_comm]

section Fresh

variable (fresh : ∀ src dst : Seat, src.size = size → dst.size = size →
  mail.queue ⟨src.rank, dst.rank, tag⟩ = []) (inGroup : seat.size = size)

include fresh inGroup

theorem countsDue_fresh {peer : Seat} (peerInside : peer.size = size) :
    countsDue size buffers tag mail seat.rank peer.rank = countSent size buffers peer seat.rank := by
  rw [countsDue, fresh peer seat peerInside inGroup, List.nil_append, Seat.atRank_rank peerInside]

/-- A rank gets as far as its records only if every rank accepts its own buffers. -/
theorem ready_of_awaits (goes : (awaits size buffers tag mail seat).isSome) {peer : Seat}
    (peerInside : peer.size = size) : Ready size (buffers peer) := by
  by_cases mine : peer.rank = seat.rank
  · rw [Seat.eq_of_rank (peerInside.trans inGroup.symm) mine]
    apply Classical.byContradiction
    intro refuses
    rw [awaits, if_neg refuses] at goes
    cases goes
  · have member : peer.rank ∈ seat.peers :=
      Seat.mem_peers.2 ⟨inGroup ▸ peerInside ▸ peer.rank_lt, mine⟩
    apply Classical.byContradiction
    intro refuses
    have missing : countsDue size buffers tag mail seat.rank peer.rank = [] := by
      rw [countsDue_fresh fresh inGroup peerInside]
      exact if_neg fun both => refuses both.1
    rw [awaits, awaited_of_missing member missing, ite_self] at goes
    cases goes

/-- If every rank accepts its own buffers, a rank awaits records from those that have some for it. -/
theorem awaits_of_all_ready (ready : ∀ peer : Seat, peer.size = size → Ready size (buffers peer)) :
    awaits size buffers tag mail seat = some (seat.peers.filter fun src =>
      !(bufferFor (Seat.atRank size buffers src) seat.rank).isEmpty) := by
  have fitting : ∀ src, fits (bufferFor (Seat.atRank size buffers src) seat.rank) = true := by
    intro src
    apply fits_bufferFor
    intro records member
    rw [Seat.atRank] at member
    split at member
    · next below => exact (ready ⟨src, size, below⟩ rfl).2 records member
    · cases member
  have heard : ∀ src ∈ seat.peers, (countsDue size buffers tag mail seat.rank src).head? =
      some (Record.encode (UInt64.ofNat
        (bufferFor (Seat.atRank size buffers src) seat.rank).length)) := by
    intro src member
    obtain ⟨peer, peerInside, rfl⟩ : ∃ peer : Seat, peer.size = size ∧ peer.rank = src :=
      ⟨⟨src, size, inGroup ▸ (Seat.mem_peers.1 member).1⟩, rfl, rfl⟩
    have listed := (mem_peers_comm inGroup peerInside).1 member
    rw [countsDue_fresh fresh inGroup peerInside, Seat.atRank_rank peerInside, countSent,
      if_pos ⟨ready peer peerInside, listed⟩, List.head?_cons]
  rw [awaits, if_pos (ready seat inGroup), awaited_of_counts heard]
  · congr 2
    funext src
    exact ofNat_length_bne_zero (fitting src)
  · intro src _
    have small := fitting src
    simp only [fits, Bool.and_eq_true, decide_eq_true_eq] at small
    rw [toNat_length (fitting src)]
    exact small.2

end Fresh

section Pair

variable {sender receiver : Seat} (senderInside : sender.size = size)
  (receiverInside : receiver.size = size)

include senderInside receiverInside

/-- A rank that accepts its own buffers takes every count. -/
theorem countSent_left :
    (if Takes size buffers tag mail receiver sender.rank tag then
        (countSent size buffers sender receiver.rank).tail
      else countSent size buffers sender receiver.rank) =
      if Ready size (buffers receiver) then [] else countSent size buffers sender receiver.rank := by
  have takes : Takes size buffers tag mail receiver sender.rank tag ↔
      Ready size (buffers receiver) ∧ sender.rank ∈ receiver.peers := by
    simp [Takes, tag_ne_next tag]
  by_cases ready : Ready size (buffers receiver)
  · rw [if_pos ready]
    by_cases peer : sender.rank ∈ receiver.peers
    · rw [if_pos (takes.2 ⟨ready, peer⟩), countSent]
      split <;> rfl
    · rw [if_neg fun taken => peer (takes.1 taken).2, countSent, if_neg]
      exact fun both => peer ((mem_peers_comm senderInside receiverInside).1 both.2)
  · rw [if_neg fun taken => ready (takes.1 taken).1, if_neg ready]

/-- Where no counts were waiting, all records are taken. -/
theorem recordsSent_left (fresh : ∀ src dst : Seat, src.size = size → dst.size = size →
      mail.queue ⟨src.rank, dst.rank, tag⟩ = []) :
    (if Takes size buffers tag mail receiver sender.rank (tag + 1) then
        (recordsSent size buffers tag mail sender receiver.rank).tail
      else recordsSent size buffers tag mail sender receiver.rank) = [] := by
  by_cases sends : (awaits size buffers tag mail sender).isSome ∧ receiver.rank ∈ sender.peers ∧
      bufferFor (buffers sender) receiver.rank ≠ []
  · rcases sends with ⟨goes, peer, some⟩
    have listed := (mem_peers_comm senderInside receiverInside).1 peer
    have ready : ∀ other : Seat, other.size = size → Ready size (buffers other) :=
      fun other otherInside => ready_of_awaits fresh senderInside goes otherInside
    have taken : Takes size buffers tag mail receiver sender.rank (tag + 1) := by
      right
      rw [awaits_of_all_ready fresh receiverInside ready, Option.getD_some]
      refine ⟨rfl, List.mem_filter.2 ⟨listed, ?_⟩⟩
      rw [Seat.atRank_rank senderInside]
      simpa using some
    rw [if_pos taken, recordsSent, if_pos ⟨goes, peer, some⟩, List.tail_cons]
  · rw [recordsSent, if_neg sends]
    split <;> rfl

end Pair

/-- Calls of an exchange always come to an end.  When all have, whichever have failed, all that the ranks
have sent or found waiting for them is still there but the first message from every rank that the receiver
takes.  If none was waiting under the two tags of the exchange, the counts for ranks that refuse their own
buffers are all that is left. -/
theorem exchange_leaves_exactly {group : Group (Except Error (List (List ρ)))}
    (reached : Reaches Move
      ⟨(Seat.all size).map fun seat => (allToAll seat (buffers seat) tag).run, mail⟩ group) :
    (∃ last, Reaches Move group last ∧ Ended last) ∧
      (Ended group → ∀ sender receiver : Seat, sender.size = size → receiver.size = size →
        (∀ label, group.mail.queue ⟨sender.rank, receiver.rank, label⟩ =
          if Takes size buffers tag mail receiver sender.rank label then
            (mail.queue ⟨sender.rank, receiver.rank, label⟩ ++
              sent size buffers tag mail sender receiver.rank label).tail
          else mail.queue ⟨sender.rank, receiver.rank, label⟩ ++
            sent size buffers tag mail sender receiver.rank label) ∧
        ((∀ src dst : Seat, src.size = size → dst.size = size →
            mail.queue ⟨src.rank, dst.rank, tag⟩ = [] ∧
              mail.queue ⟨src.rank, dst.rank, tag + 1⟩ = []) →
          group.mail.queue ⟨sender.rank, receiver.rank, tag⟩ =
            (if Ready size (buffers receiver) then [] else countSent size buffers sender receiver.rank) ∧
          group.mail.queue ⟨sender.rank, receiver.rank, tag + 1⟩ = [])) := by
  refine ⟨⟨group.run, reaches_run group, ended_run group⟩, ?_⟩
  intro ended sender receiver senderInside receiverInside
  have left := queue_of_ended reached ended senderInside receiverInside
  refine ⟨left, ?_⟩
  intro nothing
  have fresh : ∀ src dst : Seat, src.size = size → dst.size = size →
      mail.queue ⟨src.rank, dst.rank, tag⟩ = [] :=
    fun src dst srcInside dstInside => (nothing src dst srcInside dstInside).1
  constructor
  · rw [left, fresh sender receiver senderInside receiverInside, List.nil_append, sent, if_pos rfl]
    exact countSent_left senderInside receiverInside
  · rw [left, (nothing sender receiver senderInside receiverInside).2, List.nil_append, sent,
      if_neg (tag_ne_next tag).symm, if_pos rfl]
    exact recordsSent_left senderInside receiverInside fresh

/-- A count of one record waits for each of two ranks, which have none for each other. -/
def crossedCounts : Mail :=
  ((∅ : Mail).post ⟨0, 1, 7⟩ (Record.encode (1 : UInt64))).post ⟨1, 0, 7⟩ (Record.encode (1 : UInt64))

/-- Two ranks that have nothing for each other. -/
def emptyBuffers (_ : Seat) : List (List UInt64) := [[], []]

/-- The ranks wait for each other's records until they give up, and their own counts stay behind. -/
theorem exchange_leaves_exactly_crossedCounts :
    ∃ group, Reaches Move
        ⟨(Seat.all 2).map fun seat => (allToAll seat (emptyBuffers seat) 7).run, crossedCounts⟩ group ∧
      group.values = [some (.error (.commError 1 "no payload from rank 1 (tag 8)")),
        some (.error (.commError 0 "no payload from rank 0 (tag 8)"))] ∧
      group.mail.queue ⟨0, 1, 7⟩ = [Record.encode (0 : UInt64)] ∧
      group.mail.queue ⟨0, 1, 8⟩ = [] := by
  let begun : Group (Except Error (List (List UInt64))) :=
    ⟨(Seat.all 2).map fun seat => (allToAll seat (emptyBuffers seat) 7).run, crossedCounts⟩
  have reached : Reaches Move begun (runFor 60 begun) := reaches_runFor 60 begun
  have ended : Ended (runFor 60 begun) := by
    rw [Ended, ← List.all_eq_true]
    decide +kernel
  have left := ((exchange_leaves_exactly reached).2 ended ⟨0, 2, by decide⟩ ⟨1, 2, by decide⟩ rfl rfl).1
  refine ⟨runFor 60 begun, reached, by decide +kernel, ?_, ?_⟩
  · rw [left 7]
    decide +kernel
  · rw [left 8]
    decide +kernel

/-- The second of two ranks has one buffer, where two are asked for. -/
def missingBuffer (seat : Seat) : List (List UInt64) := if seat.rank = 0 then [[], []] else [[]]

/-- The second rank ends before it has taken the count of the first, which stays behind although nothing
was waiting. -/
theorem exchange_leaves_count_missingBuffer :
    ∃ group, Reaches Move (ofCall 2 fun seat => (allToAll seat (missingBuffer seat) 7).run) group ∧
      group.values = [some (.error (.commError 1 "failed to receive size from rank 1")),
        some (.error (.sendBufferCount 2 1))] ∧
      group.mail.queue ⟨0, 1, 7⟩ = [Record.encode (0 : UInt64)] := by
  refine ⟨runFor 60 _, reaches_runFor 60 _, ?_⟩
  decide +kernel

end Exchange

end Subdomain

import Subdomain.Proofs.Message.Failure
import Subdomain.Proofs.Message.Ledger

/-!
# What an exchange does to a ledger

An exchange is two rounds with the reading of the counts between them.  Whatever was due to a rank before,
and however its exchange ends, it announces what it has and takes one message from every other rank.  If
all of these are counts, and of buffers that memory can hold, it sends its records and takes a payload for
every count that is not zero; if not, it sends and takes nothing more.
-/

namespace Subdomain

theorem Seat.nodup_peers (seat : Seat) : seat.peers.Nodup := (nodup_ranksBelow seat.size).filter _

namespace Exchange

variable {α ρ : Type} [Record ρ] {size : Rank} {first tag label : Tag} {seat : Seat} {ledger : Ledger}

/-! ## Rounds -/

omit [Record ρ] in
/-- Posting pays all that is owed under a tag. -/
theorem keeps_post {messages : List (Rank × Bytes)}
    (owed : ∀ dst, ledger.owed (dst, label) = bodiesFor messages dst) :
    (post label messages).run.Keeps size first
      (fun after outcome => outcome = .ok () ∧ after = ledger.settle label) ledger := by
  induction messages generalizing ledger with
  | nil => exact .done ⟨rfl, (Ledger.settle_eq_self ledger owed).symm⟩
  | cons message messages ih =>
      rcases message with ⟨dst, body⟩
      have head : ledger.owed (dst, label) = body :: bodiesFor messages dst := by
        rw [owed, bodiesFor_cons, if_pos rfl]
      have others : ∀ other, (ledger.pay (dst, label) (bodiesFor messages dst)).owed (other, label) =
          bodiesFor messages other := by
        intro other
        rw [Ledger.owed_pay, owed, bodiesFor_cons]
        by_cases same : other = dst
        · simp [same]
        · simp [same, Ne.symm same]
      have rest := ih others
      rw [Ledger.settle_pay ledger (dst, label)] at rest
      exact .send head rest

omit [Record ρ] in
/-- Collecting takes the first message that is due, or notes that none is, from each of some ranks. -/
theorem keeps_collect {srcs : List Rank} (distinct : srcs.Nodup) (inside : ∀ src ∈ srcs, src < size)
    (prompt : ∀ dst, ledger.owed (dst, first) = [])
    (idle : ∀ src ∈ srcs, (label = first → ledger.due (src, label) = []) → ledger.Clear) :
    (collect label srcs).run.Keeps size first
      (fun after outcome => outcome = .ok (srcs.map fun src => (src, (ledger.due (src, label)).head?)) ∧
        after = ledger.collect label srcs) ledger := by
  induction srcs generalizing ledger with
  | nil => exact .done ⟨rfl, (Ledger.collect_nil ledger label).symm⟩
  | cons src srcs ih =>
      rcases List.nodup_cons.1 distinct with ⟨apart, distinct⟩
      rw [← Program.bind_done (collect label (src :: srcs)).run, collect_cons_bind]
      apply Program.Keeps.receive (inside src List.mem_cons_self) prompt (idle src List.mem_cons_self)
      let left := ledger.credit (src, label) (ledger.due (src, label)).tail
      have kept : ∀ other ∈ srcs, left.due (other, label) = ledger.due (other, label) := by
        intro other member
        rw [Ledger.due_credit, if_neg]
        intro same
        cases same
        exact apart member
      have later : ∀ other ∈ srcs, (label = first → left.due (other, label) = []) → left.Clear := by
        intro other member missing
        rw [kept other member] at missing
        exact idle other (List.mem_cons_of_mem _ member) missing
      have others : ∀ other ∈ srcs, other < size :=
        fun other member => inside other (List.mem_cons_of_mem _ member)
      have still : ∀ dst, left.owed (dst, first) = [] := prompt
      apply (ih distinct others still later).bind
      rintro after _ ⟨rfl, rfl⟩
      apply Program.Keeps.done
      constructor
      · rw [List.map_cons]
        congr 2
        apply List.map_congr_left
        intro other member
        rw [kept other member]
      · exact Ledger.collect_credit ledger apart

omit [Record ρ] in
theorem keeps_round {messages : List (Rank × Bytes)} {srcs : List Rank}
    (owed : ∀ dst, ledger.owed (dst, label) = bodiesFor messages dst) (distinct : srcs.Nodup)
    (inside : ∀ src ∈ srcs, src < size) (prompt : ∀ dst, (ledger.settle label).owed (dst, first) = [])
    (idle : ∀ src ∈ srcs, (label = first → ledger.due (src, label) = []) →
      (ledger.settle label).Clear) :
    (round label messages srcs).run.Keeps size first
      (fun after outcome => outcome = .ok (srcs.map fun src => (src, (ledger.due (src, label)).head?)) ∧
        after = (ledger.settle label).collect label srcs) ledger := by
  apply (keeps_post owed).bind
  rintro _ _ ⟨rfl, rfl⟩
  exact keeps_collect distinct inside prompt idle

/-! ## One exchange -/

/-- What a rank announces to the others. -/
def announcements (seat : Seat) (buffers : List (List ρ)) : List (Rank × Bytes) :=
  seat.peers.map fun dst => (dst, Record.encode (UInt64.ofNat (bufferFor buffers dst).length))

/-- The records that a rank has for the others. -/
def shipments (seat : Seat) (buffers : List (List ρ)) : List (Rank × Bytes) :=
  (seat.peers.filter fun dst => !(bufferFor buffers dst).isEmpty).map fun dst =>
    (dst, Record.encodeMany (bufferFor buffers dst))

/-- What a rank hears first from every other, given all that is due to it. -/
def heardFirst (seat : Seat) (due : Rank → List Bytes) : List (Rank × Option Bytes) :=
  seat.peers.map fun src => (src, (due src).head?)

/-- The counts that a rank hears, if it has one from every other. -/
def readCounts (bodies : List (Rank × Option Bytes)) : Except Error (List (Rank × UInt64)) :=
  bodies.mapM fun (peer, body) => readCount peer body

/-- The ranks that have announced records. -/
def announcers (counts : List (Rank × UInt64)) : List Rank :=
  (counts.filter fun (_, count) => count != 0).map Prod.fst

theorem fst_of_readCount {peer : Rank} {body : Option Bytes} {count : Rank × UInt64}
    (read : readCount peer body = .ok count) : count.1 = peer := by
  cases body with
  | none => cases read
  | some bytes =>
      rw [readCount] at read
      split at read
      · cases read
        rfl
      · cases read

theorem map_fst_of_readCounts {bodies : List (Rank × Option Bytes)} {counts : List (Rank × UInt64)}
    (read : readCounts bodies = .ok counts) : counts.map Prod.fst = bodies.map Prod.fst := by
  induction bodies generalizing counts with
  | nil =>
      cases read
      rfl
  | cons head rest ih =>
      simp only [readCounts, List.mapM_cons, bind_eq_ok] at read
      rcases read with ⟨count, first, others, later, done⟩
      cases done
      rw [List.map_cons, List.map_cons, fst_of_readCount first, ih later]

/-- Whether records have been announced that memory cannot hold. -/
def oversized (ρ : Type) [Record ρ] (counts : List (Rank × UInt64)) : Bool :=
  (counts.filter fun (_, count) => count != 0).any fun (_, count) =>
    maxAllocationBytes < count.toNat * Record.size ρ

/-- The ranks from which a rank awaits records, given the counts that are due to it.  If it cannot go on
with them there is no such list. -/
def awaited (ρ : Type) [Record ρ] (seat : Seat) (due : Rank → List Bytes) : Option (List Rank) :=
  match readCounts (heardFirst seat due) with
  | .error _ => none
  | .ok counts => if oversized ρ counts then none else some (announcers counts)

/-- How an exchange leaves the ledger of a rank that accepts its own buffers. -/
def settled (ρ : Type) [Record ρ] (seat : Seat) (tag : Tag) (ledger : Ledger) : Ledger :=
  let counted := (ledger.settle tag).collect tag seat.peers
  match awaited ρ seat fun src => ledger.due (src, tag) with
  | none => counted
  | some srcs => (counted.settle (tag + 1)).collect (tag + 1) srcs

/-- Of each entry, the rank has taken one message or none. -/
theorem due_settled (src : Rank) (label : Tag) :
    (settled ρ seat tag ledger).due (src, label) =
      if (label = tag ∧ src ∈ seat.peers) ∨
          (label = tag + 1 ∧ src ∈ (awaited ρ seat fun src => ledger.due (src, tag)).getD [])
      then (ledger.due (src, label)).tail else ledger.due (src, label) := by
  rw [settled]
  cases awaited ρ seat fun src => ledger.due (src, tag) with
  | none => simp [Ledger.collect]
  | some srcs =>
      simp only [Ledger.collect, Ledger.due_settle, Option.getD_some]
      by_cases first : label = tag
      · simp [first]
      · simp [first]

omit [Record ρ] in
/-- Only other ranks announce records to a rank. -/
theorem announcers_sublist_peers {due : Rank → List Bytes} {counts : List (Rank × UInt64)}
    (read : readCounts (heardFirst seat due) = .ok counts) :
    (announcers counts).Sublist seat.peers := by
  have peers : counts.map Prod.fst = seat.peers := by
    rw [map_fst_of_readCounts read, heardFirst, List.map_map]
    exact List.map_id _
  rw [← peers]
  exact List.filter_sublist.map Prod.fst

/-- A rank that is due no count from another cannot go on. -/
theorem awaited_of_missing {due : Rank → List Bytes} {src : Rank} (peer : src ∈ seat.peers)
    (missing : due src = []) : awaited ρ seat due = none := by
  have silent : (src, none) ∈ heardFirst seat due :=
    List.mem_map.2 ⟨src, peer, by rw [missing, List.head?_nil]⟩
  rcases readCount_missing silent with ⟨error, failed⟩
  rw [awaited, readCounts, failed]

/-- A rank that hears a count from every other awaits records from those whose count is not zero. -/
theorem awaited_of_counts {due : Rank → List Bytes} {count : Rank → UInt64}
    (heard : ∀ src ∈ seat.peers, (due src).head? = some (Record.encode (count src)))
    (fitting : ∀ src ∈ seat.peers, (count src).toNat * Record.size ρ ≤ maxAllocationBytes) :
    awaited ρ seat due = some (seat.peers.filter fun src => count src != 0) := by
  have read : readCounts (heardFirst seat due) = .ok (seat.peers.map fun src => (src, count src)) := by
    rw [readCounts, heardFirst, List.mapM_map]
    apply mapM_eq_ok_map
    intro src member
    change readCount src (due src).head? = _
    rw [heard src member]
    exact readCount_encode src (count src)
  have fits : ¬ oversized ρ (seat.peers.map fun src => (src, count src)) = true := by
    rw [oversized, List.any_eq_true]
    rintro ⟨⟨src, announced⟩, member, large⟩
    rcases List.mem_map.1 (List.mem_filter.1 member).1 with ⟨peer, listed, same⟩
    cases same
    exact absurd (of_decide_eq_true large) (Nat.not_lt.2 (fitting _ listed))
  have names : announcers (seat.peers.map fun src => (src, count src)) =
      seat.peers.filter fun src => count src != 0 := by
    rw [announcers, List.filter_map, List.map_map]
    exact List.map_id _
  rw [awaited, read]
  dsimp only
  rw [if_neg fits, names]

omit [Record ρ] in
theorem ofExcept_pure {β : Type} (result : Except Error α) (image : α → β) :
    (Collective.ofExcept result >>= fun value => pure (image value)) =
      Collective.ofExcept (result >>= fun value => pure (image value)) :=
  (Collective.ofExcept_bind result _).symm

/-- The second round of an exchange, for a rank whose counts can be read. -/
def shipping (seat : Seat) (buffers : List (List ρ)) (tag : Tag) (counts : List (Rank × UInt64)) :
    Collective (List (List ρ)) :=
  let expected := counts.filter fun (_, count) => count != 0
  if oversized ρ counts then throw (.defect .lengthOverflow)
  else
    round tag (shipments seat buffers) (announcers counts) >>= fun bodies =>
      Collective.ofExcept do
        let received ← (expected.zip bodies).mapM fun ((peer, count), _, body) =>
          readPayload tag peer count body
        return (seat.ranks.zip buffers).map fun (rank, own) =>
          if rank = seat.rank then own else (received.lookup rank).getD []

/-- An exchange is two rounds with the reading of the counts between them. -/
theorem allToAll_eq_rounds {buffers : List (List ρ)} (ready : Ready seat.size buffers) :
    allToAll seat buffers tag =
      round tag (announcements seat buffers) seat.peers >>= fun bodies =>
        Collective.ofExcept (readCounts bodies) >>= shipping seat buffers (tag + 1) := by
  have second : ∀ counts : List (Rank × UInt64),
      (payloads (tag + 1) (seat.peers.map fun dst => (dst, bufferFor buffers dst))
        (counts.filter fun (_, count) => count != 0) >>= fun received =>
          pure ((seat.ranks.zip buffers).map fun (rank, own) =>
            if rank = seat.rank then own else (received.lookup rank).getD [])) =
        shipping seat buffers (tag + 1) counts := by
    intro counts
    rw [payloads, shipping, oversized]
    split
    · rfl
    · have messages : ((seat.peers.map fun dst => (dst, bufferFor buffers dst)).filter
          fun outgoing => !outgoing.2.isEmpty).map (fun outgoing =>
            (outgoing.1, Record.encodeMany outgoing.2)) = shipments seat buffers := by
        rw [List.filter_map, List.map_map]
        rfl
      simp only [messages, round, bind_assoc, ofExcept_pure]
      rfl
  rw [allToAll_eq, checkBuffers_eq_ok_iff.2 ready, transfer]
  simp only [outgoing_eq ready.1, counts, announcements, round, bind_assoc, List.map_map, second]
  rfl

/-! ## Ledgers in an exchange -/

/-- What a rank owes that begins an exchange: its counts, its records if it will get so far, and nothing
else. -/
structure Owes (seat : Seat) (buffers : List (List ρ)) (tag : Tag) (ledger : Ledger) : Prop where
  counts : ∀ dst, ledger.owed (dst, tag) = bodiesFor (announcements seat buffers) dst
  records : ∀ dst, ledger.owed (dst, tag + 1) =
    if (awaited ρ seat fun src => ledger.due (src, tag)).isSome then
      bodiesFor (shipments seat buffers) dst else []
  others : ∀ dst other, other ≠ tag → other ≠ tag + 1 → ledger.owed (dst, other) = []

variable {buffers : List (List ρ)}

theorem tag_ne_next (tag : Tag) : tag ≠ tag + 1 := by simp

/-- A rank that does not get as far as its records owes nothing once it has announced them. -/
theorem Owes.clear_counted (owes : Owes seat buffers tag ledger)
    (stops : (awaited ρ seat fun src => ledger.due (src, tag)) = none) : (ledger.settle tag).Clear := by
  rintro ⟨dst, other⟩
  rw [Ledger.owed_settle]
  split
  · rfl
  · next apart =>
    by_cases second : other = tag + 1
    · rw [second, owes.records, stops]
      rfl
    · exact owes.others dst other apart second

theorem Owes.clear_shipped (owes : Owes seat buffers tag ledger) :
    ((ledger.settle tag).settle (tag + 1)).Clear := by
  rintro ⟨dst, other⟩
  rw [Ledger.owed_settle, Ledger.owed_settle]
  by_cases second : other = tag + 1
  · rw [if_pos second]
  · by_cases counted : other = tag
    · rw [if_neg second, if_pos counted]
    · rw [if_neg second, if_neg counted]
      exact owes.others dst other counted second

theorem keeps_counting (owes : Owes seat buffers tag ledger) :
    (round tag (announcements seat buffers) seat.peers).run.Keeps seat.size tag
      (fun after outcome => outcome = .ok (heardFirst seat fun src => ledger.due (src, tag)) ∧
        after = (ledger.settle tag).collect tag seat.peers) ledger := by
  apply keeps_round owes.counts seat.nodup_peers fun src member => (Seat.mem_peers.1 member).1
  · intro dst
    rw [Ledger.owed_settle, if_pos rfl]
  · intro src member missing
    exact owes.clear_counted (awaited_of_missing member (missing rfl))

theorem keeps_shipping {counts : List (Rank × UInt64)} (owes : Owes seat buffers tag ledger)
    (read : readCounts (heardFirst seat fun src => ledger.due (src, tag)) = .ok counts) :
    (shipping seat buffers (tag + 1) counts).run.Keeps seat.size tag
      (fun after _ => after.Clear ∧ after = settled ρ seat tag ledger)
      ((ledger.settle tag).collect tag seat.peers) := by
  rw [shipping]
  split
  · next oversize =>
    have stops : (awaited ρ seat fun src => ledger.due (src, tag)) = none := by
      rw [awaited, read]
      exact if_pos oversize
    apply Program.Keeps.done
    rw [settled, stops]
    exact ⟨owes.clear_counted stops, rfl⟩
  · next fitting =>
    have goes : (awaited ρ seat fun src => ledger.due (src, tag)) = some (announcers counts) := by
      rw [awaited, read]
      exact if_neg fitting
    have owed : ∀ dst, ((ledger.settle tag).collect tag seat.peers).owed (dst, tag + 1) =
        bodiesFor (shipments seat buffers) dst := by
      intro dst
      rw [Ledger.owed_collect, Ledger.owed_settle, if_neg (tag_ne_next tag).symm, owes.records, goes]
      rfl
    have sublist := announcers_sublist_peers read
    have distinct := sublist.nodup seat.nodup_peers
    have inside : ∀ src ∈ announcers counts, src < seat.size :=
      fun src member => (Seat.mem_peers.1 (sublist.subset member)).1
    have clear : (((ledger.settle tag).collect tag seat.peers).settle (tag + 1)).Clear :=
      owes.clear_shipped
    apply (keeps_round owed distinct inside (fun dst => clear _) fun _ _ _ => clear).bind
    rintro after _ ⟨rfl, rfl⟩
    apply Program.Keeps.done
    rw [settled, goes]
    exact ⟨clear, rfl⟩

/-- An exchange leaves nothing owed, however it ends. -/
theorem keeps_allToAll (ready : Ready seat.size buffers) (owes : Owes seat buffers tag ledger) :
    (allToAll seat buffers tag).run.Keeps seat.size tag
      (fun after _ => after.Clear ∧ after = settled ρ seat tag ledger) ledger := by
  rw [allToAll_eq_rounds ready]
  apply (keeps_counting owes).bind
  rintro _ _ ⟨rfl, rfl⟩
  change (Collective.ofExcept (readCounts (heardFirst seat fun src => ledger.due (src, tag))) >>=
    shipping seat buffers (tag + 1) : Collective _).run.Keeps seat.size tag _ _
  cases read : readCounts (heardFirst seat fun src => ledger.due (src, tag)) with
  | error error =>
      have stops : (awaited ρ seat fun src => ledger.due (src, tag)) = none := by rw [awaited, read]
      apply Program.Keeps.done
      rw [settled, stops]
      exact ⟨owes.clear_counted stops, rfl⟩
  | ok counts => exact keeps_shipping owes read

end Exchange

end Subdomain

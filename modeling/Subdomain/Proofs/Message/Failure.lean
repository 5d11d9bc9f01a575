import Subdomain.Proofs.Message.Exchange

/-!
# Failures strand the group

Nothing tells a rank that another has failed.  Still a program may need a peer: however it goes on, it
ends in an error or waits for that peer, and it goes wrong if the peer's message never comes.  Once a
rank has failed, none of its messages is left, and every other program needs it, no rank succeeds any
more.  A collective is decided for the group if this is the only way in which it can fail.
-/

namespace Subdomain

namespace Program

variable {ε α β : Type} {peer rank : Rank}

/-- The program ends in an error unless a peer sends it a message. -/
inductive Needs (peer : Rank) : Program (Except ε α) → Prop where
  | failed (error : ε) : Needs peer (.done (.error error))
  | send {dst : Rank} {tag : Tag} {body : Bytes} {next : Program (Except ε α)}
      (rest : Needs peer next) : Needs peer (.send dst tag body next)
  | receive {src : Rank} {tag : Tag} {next : Option Bytes → Program (Except ε α)}
      (rest : ∀ body, (src = peer → body = none) → Needs peer (next body)) :
      Needs peer (.receive src tag next)

theorem Needs.not_ok {value : α} : ¬ Needs peer (.done (.ok value) : Program (Except ε α)) := nofun

/-- A peer that is needed in the end is needed from the start. -/
theorem needs_bind (program : Program α) {next : α → Program (Except ε β)}
    (rest : ∀ value, Needs peer (next value)) : Needs peer (program.bind next) := by
  induction program with
  | done value => exact rest value
  | send dst tag body later ih => exact .send ih
  | receive src tag later ih => exact .receive fun body _ => ih body

theorem Needs.bind {program : Program (Except ε α)} (needs : Needs peer program)
    {next : Except ε α → Program (Except ε β)} (failed : ∀ error, Needs peer (next (.error error))) :
    Needs peer (program.bind next) := by
  induction needs with
  | failed error => exact failed error
  | send _ ih => exact .send ih
  | receive _ ih => exact .receive ih

/-- A program needs its peer still after a step, if it has had no message from the peer. -/
theorem Needs.acts {program after : Program (Except ε α)} {mail rest : Mail}
    (needs : Needs peer program) (silent : ∀ dst tag, mail.queue ⟨peer, dst, tag⟩ = [])
    (acts : Acts rank program mail after rest) : Needs peer after := by
  cases acts with
  | send =>
      cases needs with
      | send later => exact later
  | receive taken =>
      cases needs with
      | receive later =>
          apply later
          intro same
          subst same
          have queued := (Mail.queue_of_take? taken).1
          rw [silent] at queued
          cases queued

/-- What a rank does leaves the queues of a silent one empty. -/
theorem Acts.silent {program after : Program α} {mail rest : Mail}
    (acts : Acts rank program mail after rest) (apart : peer ≠ rank)
    (silent : ∀ dst tag, mail.queue ⟨peer, dst, tag⟩ = []) (dst : Rank) (tag : Tag) :
    rest.queue ⟨peer, dst, tag⟩ = [] := by
  cases acts with
  | send =>
      rw [Mail.queue_post, if_neg]
      · exact silent dst tag
      · intro same
        exact apart (congrArg Address.src same)
  | receive taken =>
      rcases Mail.queue_of_take? taken with ⟨queued, others⟩
      rw [others]
      · exact silent dst tag
      · intro same
        rw [← same, silent] at queued
        cases queued

end Program

namespace Group

variable {ε α β : Type} {size : Rank}

theorem getElem?_values_eq_some_iff {group : Group α} {position : Nat} {value : α} :
    group.values[position]? = some (some value) ↔
      group.programs[position]? = some (.done value) := by
  rw [values, List.getElem?_map, Option.map_eq_some_iff]
  constructor
  · rintro ⟨program, found, ended⟩
    cases program with
    | done => exact Option.some.inj ended ▸ found
    | send => cases ended
    | receive => cases ended
  · intro found
    exact ⟨_, found, rfl⟩

section Stranding

variable {group moved last : Group (Except ε α)} {rank : Rank}

/-- A rank has failed and left no message, and every rank needs one from it. -/
structure Stranded (group : Group (Except ε α)) (rank : Rank) : Prop where
  failed : ∃ error, group.programs[rank.toNat]? = some (.done (.error error))
  silent : ∀ dst tag, group.mail.queue ⟨rank, dst, tag⟩ = []
  needed : ∀ program ∈ group.programs, program.Needs rank

/-- No rank of a stranded group has succeeded. -/
theorem Stranded.not_ok (stranded : Stranded group rank) {position : Nat} {value : α} :
    group.programs[position]? ≠ some (.done (.ok value)) := by
  intro found
  exact (stranded.needed _ (List.mem_of_getElem? found)).not_ok

theorem Stranded.move (stranded : Stranded group rank) (numbered : Numbered group)
    (move : Move group moved) : Stranded moved rank := by
  rcases stranded.failed with ⟨error, failed⟩
  have kept := Reaches.done (.tail (.refl _) move) failed
  cases move with
  | inl step =>
      rcases step_iff.1 step with ⟨position, before, after, mail, found, acts, rfl⟩
      have apart : rank ≠ rankAt position := by
        intro same
        rw [same, rankAt, UInt64.toNat_ofNat_of_lt' (numbered.lt found), found] at failed
        cases failed
        cases acts
      constructor
      · exact ⟨error, kept⟩
      · exact acts.silent apart stranded.silent
      · intro program member
        rcases List.mem_or_eq_of_mem_set member with unchanged | same
        · exact stranded.needed program unchanged
        · subst same
          exact (stranded.needed _ (List.mem_of_getElem? found)).acts stranded.silent acts
  | inr giveUp =>
      cases giveUp with
      | giveUp found lost =>
          constructor
          · exact ⟨error, kept⟩
          · exact stranded.silent
          · intro program member
            rcases List.mem_or_eq_of_mem_set member with unchanged | same
            · exact stranded.needed program unchanged
            · subst same
              cases stranded.needed _ (List.mem_of_getElem? found) with
              | receive rest => exact rest none fun _ => rfl

theorem Stranded.reaches (stranded : Stranded group rank) (numbered : Numbered group)
    (moves : Reaches Move group last) : Stranded last rank := by
  induction moves with
  | refl => exact stranded
  | tail front move ih => exact ih.move (front.numbered numbered) move

end Stranding

/-- Sends and receives take a call to where a failure has stranded the group. -/
def Strands (size : Rank) (call : Seat → Collective α) : Prop :=
  ∃ failing : Seat, failing.size = size ∧ ∃ group,
    Reaches Step (ofCall size fun seat => (call seat).run) group ∧ Stranded group failing.rank

/-- However far the ranks have got, the ranks that have not ended can go on by sends and receives until
one of them has ended in an error. -/
def Fails (size : Rank) (call : Seat → Collective α) (seat : Seat) (error : Error) : Prop :=
  ∀ group, Reaches Move (ofCall size fun seat => (call seat).run) group →
    ∃ last, Reaches Step group last ∧
      last.programs[seat.rank.toNat]? = some (.done (.error error))

variable {call : Seat → Collective α} {next : Seat → α → Collective β} {seat : Seat} {error : Error}

/-- No rank succeeds in a call that strands the group, under any schedule. -/
theorem Strands.not_ok (strands : Strands size call) {group : Group (Except Error α)}
    (reached : Reaches Move (ofCall size fun seat => (call seat).run) group) {position : Nat}
    {value : α} : group.programs[position]? ≠ some (.done (.ok value)) := by
  intro found
  rcases strands with ⟨_, _, stuck, steps, stranded⟩
  have numbered : Numbered (ofCall size fun seat => (call seat).run) := numbered_ofCall _
  rcases reaches_commute numbered steps reached with ⟨last, onward, joined⟩
  have later := stranded.reaches (steps.moves.numbered numbered) onward
  exact later.not_ok (joined.moves.done found)

/-- In a call that strands the group some rank ends in an error, under any schedule. -/
theorem Strands.fails (strands : Strands size call) :
    ∃ seat : Seat, seat.size = size ∧ ∃ error, Fails size call seat error := by
  rcases strands with ⟨failing, inGroup, stuck, steps, stranded⟩
  rcases stranded.failed with ⟨error, failed⟩
  refine ⟨failing, inGroup, error, ?_⟩
  intro group reached
  rcases reaches_commute (numbered_ofCall _) steps reached with ⟨last, onward, joined⟩
  exact ⟨last, joined, onward.done failed⟩

/-- A rank that has ended in a call that settles has its result, under any schedule. -/
theorem Settles.outcome {results : Seat → Except Error α}
    (settles : Settles size (fun seat => (call seat).run) results)
    {group : Group (Except Error α)}
    (reached : Reaches Move (ofCall size fun seat => (call seat).run) group) {position : Nat}
    {outcome : Except Error α} (found : group.programs[position]? = some (.done outcome)) :
    ∃ seat, (Seat.all size)[position]? = some seat ∧ results seat = outcome := by
  have onward := steps_outcome (numbered_ofCall _) settles.reaches (ended_ofValues _ _) reached
  have kept := onward.moves.done found
  rw [ofCall, List.getElem?_map, Option.map_eq_some_iff] at kept
  rcases kept with ⟨seat, located, same⟩
  exact ⟨seat, located, Program.done.inj same⟩

/-- However far the ranks have got with a call, those that have not ended can go on by sends and receives
until all have, and no message is left then.  Something holds of the outcome of every rank that ends. -/
def Ensures (size : Rank) (call : Seat → Collective α) (ends : Seat → Except Error α → Prop) : Prop :=
  ∀ group, Reaches Move (ofCall size fun seat => (call seat).run) group →
    (Ended group ∨ ∃ next, Step group next) ∧
    (∃ outcomes : Seat → Except Error α,
      Reaches Step group (ofCall size fun seat => .done (outcomes seat)) ∧
        ∀ seat : Seat, seat.size = size → ends seat (outcomes seat)) ∧
    ∀ seat : Seat, seat.size = size → ∀ outcome,
      group.programs[seat.rank.toNat]? = some (.done outcome) → ends seat outcome

theorem Settles.ensures {results : Seat → Except Error α}
    (settles : Settles size (fun seat => (call seat).run) results)
    {ends : Seat → Except Error α → Prop}
    (holds : ∀ seat : Seat, seat.size = size → ends seat (results seat)) : Ensures size call ends := by
  intro group reached
  have ended : Ended (ofCall size fun seat => .done (results seat)) := ended_ofValues _ ∅
  have onward := steps_outcome (numbered_ofCall _) settles.reaches ended reached
  refine ⟨?_, ⟨results, onward, holds⟩, ?_⟩
  · cases Reaches.eq_or_step onward with
    | inl same => exact .inl (same ▸ ended)
    | inr some => exact .inr some
  · intro seat inGroup outcome found
    rcases settles.outcome reached found with ⟨other, located, same⟩
    rw [Seat.getElem?_all inGroup] at located
    cases located
    exact same ▸ holds seat inGroup

theorem Settles.strands {values : Seat → α}
    (settles : Settles size (fun seat => (call seat).run) fun seat => .ok (values seat))
    (strands : Strands size fun seat => next seat (values seat)) :
    Strands size fun seat => call seat >>= next seat := by
  rcases strands with ⟨failing, inGroup, group, steps, stranded⟩
  exact ⟨failing, inGroup, group, settles.reaches_next.trans steps, stranded⟩

/-- A rank whose result is an error ends with it, whatever the others go on with. -/
theorem Settles.fails {results : Seat → Except Error α}
    (settles : Settles size (fun seat => (call seat).run) results) (inGroup : seat.size = size)
    (failed : results seat = .error error) :
    Fails size (fun seat => call seat >>= next seat) seat error := by
  intro group reached
  rcases reaches_commute (numbered_ofCall _) settles.reaches_next reached with
    ⟨last, onward, joined⟩
  apply Exists.intro last
  apply And.intro joined
  apply onward.done
  rw [getElem?_ofCall inGroup, failed]
  rfl

theorem Settles.fails_next {values : Seat → α}
    (settles : Settles size (fun seat => (call seat).run) fun seat => .ok (values seat))
    (fails : Fails size (fun seat => next seat (values seat)) seat error) :
    Fails size (fun seat => call seat >>= next seat) seat error := by
  intro group reached
  rcases reaches_commute (numbered_ofCall _) settles.reaches_next reached with
    ⟨middle, onward, joined⟩
  rcases fails middle onward with ⟨last, later, failed⟩
  exact ⟨last, joined.trans later, failed⟩

/-! ## Programs that heed the failures of others -/

/-- A rank's call needs every other rank. -/
def Heeds (seat : Seat) (call : Collective α) : Prop := ∀ peer ∈ seat.peers, call.run.Needs peer

theorem heeds_bind (call : Collective α) {next : α → Collective β}
    (rest : ∀ value, Heeds seat (next value)) : Heeds seat (call >>= next) := by
  intro peer member
  apply Program.needs_bind
  intro outcome
  cases outcome with
  | error error => exact .failed error
  | ok value => exact rest value peer member

theorem Heeds.andThen {call : Collective α} (heeds : Heeds seat call) (next : α → Collective β) :
    Heeds seat (call >>= next) := by
  intro peer member
  exact (heeds peer member).bind fun error => .failed error

/-! ## Calls that are decided for the whole group -/

/-- Either the group goes through a call, with values for which something holds, or a failure strands it,
given what the ranks go on with. -/
def Decides (size : Rank) (call : Seat → Collective α) (next : Seat → α → Collective β)
    (ends : (Seat → α) → Prop) : Prop :=
  (∃ values : Seat → α,
    Settles size (fun seat => (call seat).run) (fun seat => .ok (values seat)) ∧ ends values) ∨
    Strands size fun seat => call seat >>= next seat

variable {γ : Type} {ends : (Seat → α) → Prop}

theorem Strands.congr {other : Seat → Collective α} (strands : Strands size call)
    (same : ∀ seat : Seat, seat.size = size → other seat = call seat) : Strands size other := by
  rw [Strands, ofCall_congr fun seat inGroup => congrArg ExceptT.run (same seat inGroup)]
  exact strands

theorem Decides.congr {other : Seat → Collective α} (decides : Decides size call next ends)
    (same : ∀ seat : Seat, seat.size = size → other seat = call seat) :
    Decides size other next ends := by
  cases decides with
  | inl ended =>
      rcases ended with ⟨values, settles, holds⟩
      left
      refine ⟨values, settles.congr ?_ fun _ _ => rfl, holds⟩
      intro seat inGroup
      rw [same seat inGroup]
  | inr strands =>
      right
      apply strands.congr
      intro seat inGroup
      rw [same seat inGroup]

theorem Decides.mono (decides : Decides size call next ends) {weaker : (Seat → α) → Prop}
    (weaken : ∀ values, ends values → weaker values) : Decides size call next weaker := by
  cases decides with
  | inl ended =>
      rcases ended with ⟨values, settles, holds⟩
      exact .inl ⟨values, settles, weaken values holds⟩
  | inr strands => exact .inr strands

/-- A call that is decided, seen on its own. -/
theorem Decides.settles_or_strands (decides : Decides size call (fun _ => pure) ends) :
    (∃ values : Seat → α,
      Settles size (fun seat => (call seat).run) (fun seat => .ok (values seat)) ∧ ends values) ∨
      Strands size call := by
  rw [Decides] at decides
  simp only [bind_pure] at decides
  exact decides

/-- A call that is decided succeeds under every schedule if it does under one, with the same values. -/
theorem Decides.of_succeeded (decides : Decides size call (fun _ => pure) ends)
    {group : Group (Except Error α)} {holds : Seat → α → Prop}
    (reached : Reaches Move (ofCall size fun seat => (call seat).run) group)
    (succeeded : ∀ seat : Seat, seat.size = size → ∃ value,
      group.programs[seat.rank.toNat]? = some (.done (.ok value)) ∧ holds seat value) :
    ∃ values : Seat → α,
      Settles size (fun seat => (call seat).run) (fun seat => .ok (values seat)) ∧
      ends values ∧ ∀ seat : Seat, seat.size = size → holds seat (values seat) := by
  cases decides.settles_or_strands with
  | inl ended =>
      rcases ended with ⟨values, settles, ends⟩
      refine ⟨values, settles, ends, ?_⟩
      intro seat inGroup
      rcases succeeded seat inGroup with ⟨value, found, holds⟩
      rcases settles.outcome reached found with ⟨other, located, same⟩
      rw [Seat.getElem?_all inGroup] at located
      cases located
      exact Except.ok.inj same ▸ holds
  | inr strands =>
      have stuck := strands
      rcases stuck with ⟨failing, inGroup, _⟩
      rcases succeeded failing inGroup with ⟨value, found, _⟩
      exact absurd found (strands.not_ok reached)

theorem Decides.of_completes {patience : Patience} {results : Seat → α}
    (decides : Decides size call (fun _ => pure) ends)
    (completes : Completes patience size call results) :
    ∃ values : Seat → α, ends values ∧
      ∀ seat : Seat, seat.size = size → results seat = values seat := by
  rcases completes with ⟨mail, reaches⟩
  have succeeded : ∀ seat : Seat, seat.size = size → ∃ value,
      ((Seat.all size).map fun seat => .done (.ok (results seat)))[seat.rank.toNat]? =
        some (Program.done (.ok value) : Program (Except Error α)) ∧ results seat = value := by
    intro seat inGroup
    rw [List.getElem?_map, Seat.getElem?_all inGroup]
    exact ⟨results seat, rfl, rfl⟩
  rcases decides.of_succeeded reaches.impatient succeeded with ⟨values, _, holds, same⟩
  exact ⟨values, holds, same⟩

theorem decides_pure (values : Seat → α) :
    Decides size (fun seat => pure (values seat)) next fun results => results = values :=
  .inl ⟨values, settles_done _, rfl⟩

/-- A call that is decided, and then one that is decided from wherever the first ends. -/
theorem Decides.andThen {last : Seat → β → Collective γ} {ending : (Seat → β) → Prop}
    (first : Decides size call (fun seat value => next seat value >>= last seat) ends)
    (second : ∀ values : Seat → α,
      Settles size (fun seat => (call seat).run) (fun seat => .ok (values seat)) → ends values →
      Decides size (fun seat => next seat (values seat)) last ending) :
    Decides size (fun seat => call seat >>= next seat) last ending := by
  cases first with
  | inl ended =>
      rcases ended with ⟨values, settles, holds⟩
      cases second values settles holds with
      | inl endedToo =>
          rcases endedToo with ⟨results, settlesToo, holdsToo⟩
          exact .inl ⟨results, settles.andThen settlesToo, holdsToo⟩
      | inr strands =>
          right
          simp only [bind_assoc]
          exact settles.strands strands
  | inr strands =>
      right
      simp only [bind_assoc]
      exact strands

/-- A rank that fails strands the group if what the other ranks go on with needs every rank. -/
theorem strands_ofExcept {results : Seat → Except Error α}
    (heeds : ∀ seat : Seat, seat.size = size → ∀ value, Heeds seat (next seat value))
    (inGroup : seat.size = size) (failed : results seat = .error error) :
    Strands size fun seat => Collective.ofExcept (results seat) >>= next seat := by
  refine ⟨seat, inGroup, _, .refl _, ⟨error, ?_⟩, fun _ _ => rfl, ?_⟩
  · rw [getElem?_ofCall inGroup]
    change some (ExceptT.bindCont (next seat) (results seat)) = _
    rw [failed]
    rfl
  · intro program member
    rcases List.mem_map.1 member with ⟨other, listed, rfl⟩
    have otherInGroup := Seat.mem_all.1 listed
    change (ExceptT.bindCont (next other) (results other)).Needs seat.rank
    cases result : results other with
    | error error => exact .failed error
    | ok value =>
        apply heeds other otherInGroup value
        apply Seat.mem_peers.2
        constructor
        · rw [otherInGroup, ← inGroup]
          exact seat.rank_lt
        · intro same
          have here : seat = other := Seat.eq_of_rank (inGroup.trans otherInGroup.symm) same
          rw [← here, failed] at result
          cases result

/-- A local result is decided, if what the ranks go on with needs every rank. -/
theorem decides_ofExcept [Inhabited α] {results : Seat → Except Error α}
    (heeds : ∀ seat : Seat, seat.size = size → ∀ value, Heeds seat (next seat value)) :
    Decides size (fun seat => Collective.ofExcept (results seat)) next fun values =>
      ∀ seat : Seat, seat.size = size → results seat = .ok (values seat) := by
  by_cases failure : ∃ seat : Seat, seat.size = size ∧ ∃ error, results seat = .error error
  · rcases failure with ⟨seat, inGroup, error, failed⟩
    exact .inr (strands_ofExcept heeds inGroup failed)
  · left
    have succeeded : ∀ seat : Seat, seat.size = size → ∃ value, results seat = .ok value := by
      intro seat inGroup
      cases result : results seat with
      | ok value => exact ⟨value, rfl⟩
      | error error => exact absurd ⟨seat, inGroup, error, result⟩ failure
    rcases exists_values succeeded with ⟨values, chosen⟩
    refine ⟨values, ?_, chosen⟩
    apply (settles_done results).congr
    · intro seat _
      rfl
    · intro seat inGroup
      exact (chosen seat inGroup).symm

/-- A local result, and then a call that is decided from wherever the results lead. -/
theorem decides_result [Inhabited α] {results : Seat → Except Error α}
    {last : Seat → β → Collective γ} {ending : (Seat → β) → Prop}
    (heeds : ∀ seat : Seat, seat.size = size → ∀ value, Heeds seat (last seat value))
    (rest : ∀ values : Seat → α,
      (∀ seat : Seat, seat.size = size → results seat = .ok (values seat)) →
      Decides size (fun seat => next seat (values seat)) last ending) :
    Decides size (fun seat => Collective.ofExcept (results seat) >>= next seat) last ending := by
  apply Decides.andThen
  · apply decides_ofExcept
    intro seat inGroup _
    exact heeds_bind _ (heeds seat inGroup)
  · intro values _ succeeded
    exact rest values succeeded

/-- Where no rank fails the group goes through, whatever the ranks go on with. -/
theorem decides_ok {results : Seat → Except Error α} {values : Seat → α}
    (succeeded : ∀ seat : Seat, seat.size = size → results seat = .ok (values seat)) :
    Decides size (fun seat => Collective.ofExcept (results seat)) next fun results =>
      results = values := by
  apply (decides_pure values).congr
  intro seat inGroup
  rw [succeeded seat inGroup]
  rfl

end Group

/-! ## Exchanges -/

namespace Exchange

open Subdomain.Group

variable {α β ρ : Type} [Record ρ] {size : Rank} {tag : Tag} {seat : Seat}

omit [Record ρ] in
/-- Collecting from a peer leads on only with what is made of its missing message. -/
theorem needs_collect {peer : Rank} {srcs : List Rank} (listed : peer ∈ srcs)
    {next : Except Error (List (Rank × Option Bytes)) → Program (Except Error α)}
    (missing : ∀ bodies, (peer, none) ∈ bodies → (next (.ok bodies)).Needs peer)
    (failed : ∀ error, (next (.error error)).Needs peer) :
    ((collect tag srcs).run.bind next).Needs peer := by
  induction srcs generalizing next with
  | nil => cases listed
  | cons src srcs ih =>
      rw [collect_cons_bind]
      apply Program.Needs.receive
      intro body silent
      cases List.mem_cons.1 listed with
      | inl same =>
          apply Program.needs_bind
          intro outcome
          cases outcome with
          | error error => exact failed error
          | ok bodies =>
              apply missing
              rw [← same, silent same.symm]
              exact List.mem_cons_self
      | inr later =>
          apply ih later
          · intro bodies member
            exact missing _ (List.mem_cons_of_mem _ member)
          · exact failed

/-- A count that never came is an error. -/
theorem readCount_missing {peer : Rank} {bodies : List (Rank × Option Bytes)}
    (member : (peer, none) ∈ bodies) :
    ∃ error, bodies.mapM (fun (peer, body) => readCount peer body) = .error error := by
  cases done : bodies.mapM fun (peer, body) => readCount peer body with
  | error error => exact ⟨error, rfl⟩
  | ok counts =>
      rcases mapM_succeeds_iff.1 ⟨counts, done⟩ _ member with ⟨count, read⟩
      cases read

omit [Record ρ] in
theorem heeds_counts (outgoing : List (Rank × List ρ)) : Heeds seat (counts seat tag outgoing) := by
  apply heeds_bind
  intro _ peer member
  apply needs_collect member
  · intro bodies silent
    rcases readCount_missing silent with ⟨error, failed⟩
    change (Collective.ofExcept (bodies.mapM fun (peer, body) => readCount peer body)).run.Needs peer
    rw [failed]
    exact .failed error
  · intro error
    exact .failed error

theorem heeds_allToAll (buffers : List (List ρ)) : Heeds seat (allToAll seat buffers tag) := by
  rw [allToAll_eq]
  apply heeds_bind
  intro _
  exact (heeds_counts _).andThen _

/-- An exchange is decided for the group: a rank that refuses its own buffers is missed by all. -/
theorem decides_allToAll {buffers : Seat → List (List ρ)}
    {next : Seat → List (List ρ) → Collective β} :
    Decides size (fun seat => allToAll seat (buffers seat) tag) next fun values =>
      values = received size buffers ∧
        ∀ seat : Seat, seat.size = size → Ready size (buffers seat) := by
  have checked : Decides size (fun seat => Collective.ofExcept (checkBuffers seat (buffers seat)))
      (fun seat _ => transfer seat (buffers seat) tag >>= next seat) fun _ =>
        ∀ seat : Seat, seat.size = size → checkBuffers seat (buffers seat) = .ok () := by
    apply decides_ofExcept
    intro seat _ _
    exact ((heeds_counts _).andThen _).andThen _
  cases checked with
  | inl ended =>
      rcases ended with ⟨_, _, accepted⟩
      have ready : ∀ seat : Seat, seat.size = size → Ready size (buffers seat) := by
        intro seat inGroup
        exact inGroup ▸ checkBuffers_eq_ok_iff.1 (accepted seat inGroup)
      exact .inl ⟨_, settles_allToAll ready, rfl, ready⟩
  | inr strands =>
      right
      simp only [allToAll_eq, bind_assoc]
      exact strands

theorem heeds_allGather (records : List ρ) : Heeds seat (allGather seat records tag) :=
  heeds_allToAll _

end Exchange

end Subdomain

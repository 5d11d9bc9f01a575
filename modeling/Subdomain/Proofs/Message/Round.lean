import Subdomain.Message.Exchange
import Subdomain.Proofs.Message.Lockstep

/-!
# Rounds

A round is what an exchange is made of: every rank posts some messages under one tag, and then collects
one message from each of some ranks.  A round settles whenever the ranks listened to are exactly those
that send; the invariants of its two phases say what is in every queue after so many turns.
-/

namespace Subdomain

namespace Seat

variable {α : Type} {size : Rank}

/-- What the ranks of a group have, by rank; a rank outside the group has nothing. -/
def atRank (size : Rank) (values : Seat → List α) (rank : Rank) : List α :=
  if below : rank < size then values ⟨rank, size, below⟩ else []

theorem atRank_rank {values : Seat → List α} {seat : Seat} (inGroup : seat.size = size) :
    atRank size values seat.rank = values seat := by
  subst inGroup
  rw [atRank, dif_pos seat.rank_lt]

theorem atRank_of_le {values : Seat → List α} {rank : Rank} (outside : size ≤ rank) :
    atRank size values rank = [] := by
  rw [atRank, dif_neg (UInt64.not_lt.2 outside)]

end Seat

namespace Exchange

open Subdomain.Group

variable {α : Type} {size rank : Rank} {tag : Tag}

/-- The messages meant for one rank. -/
def bodiesFor (messages : List (Rank × Bytes)) (dst : Rank) : List Bytes :=
  (messages.filter fun message => message.1 == dst).map Prod.snd

theorem bodiesFor_cons (dst other : Rank) (body : Bytes) (messages : List (Rank × Bytes)) :
    bodiesFor ((dst, body) :: messages) other =
      if dst = other then body :: bodiesFor messages other else bodiesFor messages other := by
  by_cases same : dst = other <;> simp [bodiesFor, same]

theorem runs_post (messages : List (Rank × Bytes)) (next : Except Error Unit → Program α)
    (mail : Mail) :
    ∃ rest, ((post tag messages).run.bind next).Runs rank mail (next (.ok ())) rest ∧
      ∀ address, rest.queue address = mail.queue address ++
        if address.src = rank ∧ address.tag = tag then bodiesFor messages address.dst else [] := by
  induction messages generalizing mail with
  | nil =>
      exists mail
      constructor
      · exact .refl
      · intro address
        simp [bodiesFor]
  | cons message messages ih =>
      rcases message with ⟨dst, body⟩
      rcases ih (mail.post ⟨rank, dst, tag⟩ body) with ⟨rest, runs, queues⟩
      exists rest
      constructor
      · exact .step .send runs
      · intro address
        rw [queues, Mail.queue_post, bodiesFor_cons]
        rcases address with ⟨src, other, label⟩
        by_cases mine : src = rank ∧ label = tag
        · rcases mine with ⟨rfl, rfl⟩
          by_cases same : other = dst
          · simp [same]
          · simp [same, Ne.symm same]
        · rw [if_neg mine, if_neg mine, if_neg]
          intro same
          cases same
          exact mine ⟨rfl, rfl⟩

/-- What is done with an outcome once a message has been put in front of it. -/
def consBody (src : Rank) (body : Option Bytes)
    (next : Except Error (List (Rank × Option Bytes)) → Program α) :
    Except Error (List (Rank × Option Bytes)) → Program α
  | .ok collected => next (.ok ((src, body) :: collected))
  | .error error => next (.error error)

theorem collect_cons_bind (src : Rank) (srcs : List Rank)
    (next : Except Error (List (Rank × Option Bytes)) → Program α) :
    (collect tag (src :: srcs)).run.bind next =
      .receive src tag fun body => (collect tag srcs).run.bind (consBody src body next) := by
  have unfolded : (collect tag (src :: srcs)).run =
      .receive src tag fun body => (collect tag srcs).run.bind (ExceptT.bindCont fun collected =>
        (pure ((src, body) :: collected) : Collective _)) := rfl
  rw [unfolded, Program.bind]
  congr 1
  funext body
  rw [Program.bind_bind]
  congr 1
  funext outcome
  cases outcome <;> rfl

theorem runs_collect {srcs : List Rank} (distinct : srcs.Nodup) {bodies : Rank → Bytes}
    (next : Except Error (List (Rank × Option Bytes)) → Program α) {mail : Mail}
    (heard : ∀ src ∈ srcs, mail.queue ⟨src, rank, tag⟩ = [bodies src]) :
    ∃ rest, ((collect tag srcs).run.bind next).Runs rank mail
        (next (.ok (srcs.map fun src => (src, some (bodies src))))) rest ∧
      ∀ address, rest.queue address =
        if address.dst = rank ∧ address.tag = tag ∧ address.src ∈ srcs then []
        else mail.queue address := by
  induction srcs generalizing mail next with
  | nil =>
      exists mail
      constructor
      · exact .refl
      · intro address
        simp
  | cons src srcs ih =>
      rcases List.nodup_cons.1 distinct with ⟨apart, distinct⟩
      have first := heard src List.mem_cons_self
      let emptied := mail.setQueue ⟨src, rank, tag⟩ []
      have taken : mail.take? ⟨src, rank, tag⟩ = some (bodies src, emptied) := by
        rw [Mail.take?, first]
      have others : ∀ other ∈ srcs, emptied.queue ⟨other, rank, tag⟩ = [bodies other] := by
        intro other member
        rw [Mail.queue_setQueue, if_neg]
        · exact heard other (List.mem_cons_of_mem _ member)
        · intro same
          cases same
          exact apart member
      rcases ih distinct (consBody src (some (bodies src)) next) others with ⟨rest, runs, queues⟩
      exists rest
      constructor
      · rw [collect_cons_bind]
        exact .step (.receive taken) runs
      · intro address
        rw [queues, Mail.queue_setQueue]
        rcases address with ⟨from_, dst, label⟩
        by_cases same : from_ = src
        · subst same
          simp [apart]
        · simp [same]

/-- Post some messages, then collect one from each of some ranks. -/
def round (tag : Tag) (messages : List (Rank × Bytes)) (srcs : List Rank) :
    Collective (List (Rank × Option Bytes)) := do
  post tag messages
  collect tag srcs

/-- The mail while the ranks post: those that have had their turn have sent everything. -/
def Posted (size : Rank) (tag : Tag) (out : Seat → List (Rank × Bytes)) (turns : Nat)
    (mail : Mail) : Prop :=
  ∀ address, mail.queue address =
    if address.tag = tag ∧ address.src.toNat < turns then
      bodiesFor (Seat.atRank size out address.src) address.dst
    else []

/-- The mail while the ranks collect: those that have had their turn have nothing more to receive. -/
def Collected (size : Rank) (tag : Tag) (out : Seat → List (Rank × Bytes)) (turns : Nat)
    (mail : Mail) : Prop :=
  ∀ address, mail.queue address =
    if address.tag = tag ∧ turns ≤ address.dst.toNat then
      bodiesFor (Seat.atRank size out address.src) address.dst
    else []

variable {out : Seat → List (Rank × Bytes)} {srcs : Seat → List Rank}
  {bodies : Seat → Rank → Bytes}

theorem posted_turn {seat : Seat} (inGroup : seat.size = size) {mail : Mail}
    (posted : Posted size tag out seat.rank.toNat mail) (next : Except Error Unit → Program α) :
    ∃ rest, ((post tag (out seat)).run.bind next).Runs seat.rank mail (next (.ok ())) rest ∧
      Posted size tag out (seat.rank.toNat + 1) rest := by
  rcases runs_post (out seat) next mail with ⟨rest, runs, queues⟩
  exists rest
  constructor
  · exact runs
  · intro address
    rw [queues, posted]
    by_cases mine : address.src = seat.rank
    · rw [mine, Seat.atRank_rank inGroup]
      by_cases labelled : address.tag = tag <;> simp [labelled]
    · have apart : address.src.toNat ≠ seat.rank.toNat := fun same => mine (UInt64.toNat_inj.1 same)
      have bound : address.src.toNat < seat.rank.toNat + 1 ↔
          address.src.toNat < seat.rank.toNat := by omega
      simp [mine, bound]

theorem collected_turn {seat : Seat} (inGroup : seat.size = size) {mail : Mail}
    (distinct : (srcs seat).Nodup)
    (heard : ∀ src ∈ srcs seat,
      bodiesFor (Seat.atRank size out src) seat.rank = [bodies seat src])
    (unheard : ∀ src dst, bodiesFor (Seat.atRank size out src) dst ≠ [] →
      ∃ seat : Seat, seat.size = size ∧ seat.rank = dst ∧ src ∈ srcs seat)
    (collected : Collected size tag out seat.rank.toNat mail)
    (next : Except Error (List (Rank × Option Bytes)) → Program α) :
    ∃ rest, ((collect tag (srcs seat)).run.bind next).Runs seat.rank mail
        (next (.ok ((srcs seat).map fun src => (src, some (bodies seat src))))) rest ∧
      Collected size tag out (seat.rank.toNat + 1) rest := by
  have waiting : ∀ src ∈ srcs seat, mail.queue ⟨src, seat.rank, tag⟩ = [bodies seat src] := by
    intro src member
    rw [collected, if_pos ⟨rfl, Nat.le_refl _⟩]
    exact heard src member
  rcases runs_collect distinct next waiting with ⟨rest, runs, queues⟩
  exists rest
  constructor
  · exact runs
  · intro address
    rw [queues, collected]
    rcases address with ⟨src, dst, label⟩
    by_cases mine : dst = seat.rank
    · subst mine
      have passed : ¬ seat.rank.toNat + 1 ≤ seat.rank.toNat := Nat.not_succ_le_self _
      by_cases listened : src ∈ srcs seat
      · by_cases labelled : label = tag <;> simp [listened, labelled, passed]
      · have silent : bodiesFor (Seat.atRank size out src) seat.rank = [] := by
          apply Classical.byContradiction
          intro sent
          rcases unheard _ _ sent with ⟨other, otherInGroup, rank, member⟩
          rw [Seat.eq_of_rank (otherInGroup.trans inGroup.symm) rank] at member
          exact listened member
        simp [listened, silent]
    · have apart : dst.toNat ≠ seat.rank.toNat := fun same => mine (UInt64.toNat_inj.1 same)
      have bound : seat.rank.toNat + 1 ≤ dst.toNat ↔ seat.rank.toNat ≤ dst.toNat := by omega
      simp [mine, bound]

/-- A round settles if every rank collects from exactly the ranks that post to it, which do so once. -/
theorem settles_round
    (distinct : ∀ seat : Seat, seat.size = size → (srcs seat).Nodup)
    (heard : ∀ seat : Seat, seat.size = size → ∀ src ∈ srcs seat,
      bodiesFor (Seat.atRank size out src) seat.rank = [bodies seat src])
    (unheard : ∀ src dst, bodiesFor (Seat.atRank size out src) dst ≠ [] →
      ∃ seat : Seat, seat.size = size ∧ seat.rank = dst ∧ src ∈ srcs seat) :
    Settles size (fun seat => (round tag (out seat) (srcs seat)).run)
      (fun seat => .ok ((srcs seat).map fun src => (src, some (bodies seat src)))) := by
  intro β next
  have begun : Posted size tag out 0 ∅ := by
    intro address
    simp
  have posting : ∀ seat : Seat, seat.size = size → ∀ mail,
      Posted size tag out seat.rank.toNat mail → ∃ rest,
        ((round tag (out seat) (srcs seat)).run.bind (next seat)).Runs seat.rank mail
          ((collect tag (srcs seat)).run.bind (next seat)) rest ∧
        Posted size tag out (seat.rank.toNat + 1) rest := by
    intro seat inGroup mail posted
    have split : (round tag (out seat) (srcs seat)).run.bind (next seat) =
        (post tag (out seat)).run.bind fun outcome =>
          (ExceptT.bindCont (fun _ => collect tag (srcs seat)) outcome).bind (next seat) :=
      Program.bind_bind ..
    rw [split]
    exact posted_turn inGroup posted _
  rcases reaches_turns posting begun with ⟨full, front, posted⟩
  have halfway : Collected size tag out 0 full := by
    intro address
    rw [posted]
    by_cases inGroup : address.src < size
    · simp [UInt64.lt_iff_toNat_lt.1 inGroup]
    · simp [Seat.atRank_of_le (UInt64.not_lt.1 inGroup), bodiesFor]
  have collecting : ∀ seat : Seat, seat.size = size → ∀ mail,
      Collected size tag out seat.rank.toNat mail → ∃ rest,
        ((collect tag (srcs seat)).run.bind (next seat)).Runs seat.rank mail
          (next seat (.ok ((srcs seat).map fun src => (src, some (bodies seat src))))) rest ∧
        Collected size tag out (seat.rank.toNat + 1) rest :=
    fun seat inGroup _ collected => collected_turn inGroup (distinct seat inGroup)
      (heard seat inGroup) unheard collected (next seat)
  rcases reaches_turns collecting halfway with ⟨rest, back, collected⟩
  have empty : rest = ∅ := by
    apply Mail.ext
    intro address
    rw [collected, Mail.queue_empty]
    split
    · next beyond =>
      apply Classical.byContradiction
      intro sent
      rcases unheard _ _ sent with ⟨seat, inGroup, rank, _⟩
      have within := seat.toNat_lt
      rw [inGroup, rank] at within
      omega
    · rfl
  rw [empty] at back
  exact front.trans back

end Exchange

end Subdomain

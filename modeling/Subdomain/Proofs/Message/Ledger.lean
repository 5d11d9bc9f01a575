import Mathlib.Logic.Function.Basic
import Subdomain.Proofs.Message.Lockstep

/-!
# Ledgers

A message is owed by its sender, then on its way, then received.  Every rank has a ledger of the messages
that it owes and of those that are due to it, and whatever is due is on its way or still owed.  What a
program does to its own ledger is shown on the program alone: it hears the first message that is due, or
nothing if none is.  That the ledgers of a group agree with the mail is shown for every move.

A rank may give up on a message that never comes, and then none was due.  For where no rank can send or
receive, no rank owes anything: one that waits owes nothing under the first tag of its call, and if it
waits for another tag, or for a message that is not due, it owes nothing at all.
-/

namespace Subdomain

/-- The messages that a rank has yet to send, and those that are yet to come to it: in order, for every
other rank and tag. -/
@[ext] structure Ledger where
  owed : Rank × Tag → List Bytes
  due : Rank × Tag → List Bytes

namespace Ledger

/-- The ledger once only some messages of an entry are still owed. -/
def pay (ledger : Ledger) (entry : Rank × Tag) (rest : List Bytes) : Ledger :=
  { ledger with owed := Function.update ledger.owed entry rest }

/-- The ledger once only some messages of an entry are still due. -/
def credit (ledger : Ledger) (entry : Rank × Tag) (rest : List Bytes) : Ledger :=
  { ledger with due := Function.update ledger.due entry rest }

/-- The ledger once nothing is owed under a tag. -/
def settle (ledger : Ledger) (tag : Tag) : Ledger :=
  { ledger with owed := fun entry => if entry.2 = tag then [] else ledger.owed entry }

/-- The ledger once a message under a tag has been taken from each of some ranks that one was due from. -/
def collect (ledger : Ledger) (tag : Tag) (srcs : List Rank) : Ledger :=
  { ledger with due := fun entry =>
      if entry.2 = tag ∧ entry.1 ∈ srcs then (ledger.due entry).tail else ledger.due entry }

/-- Nothing is owed. -/
def Clear (ledger : Ledger) : Prop := ∀ entry, ledger.owed entry = []

variable (ledger : Ledger) (entry : Rank × Tag) (rest : List Bytes)

@[simp] theorem due_pay : (ledger.pay entry rest).due = ledger.due := rfl

@[simp] theorem owed_credit : (ledger.credit entry rest).owed = ledger.owed := rfl

@[simp] theorem owed_pay (other : Rank × Tag) :
    (ledger.pay entry rest).owed other = if other = entry then rest else ledger.owed other :=
  Function.update_apply ..

@[simp] theorem due_credit (other : Rank × Tag) :
    (ledger.credit entry rest).due other = if other = entry then rest else ledger.due other :=
  Function.update_apply ..

@[simp] theorem due_settle (tag : Tag) : (ledger.settle tag).due = ledger.due := rfl

@[simp] theorem owed_settle (tag : Tag) (other : Rank × Tag) :
    (ledger.settle tag).owed other = if other.2 = tag then [] else ledger.owed other := rfl

@[simp] theorem owed_collect (tag : Tag) (srcs : List Rank) :
    (ledger.collect tag srcs).owed = ledger.owed := rfl

theorem collect_nil (tag : Tag) : ledger.collect tag [] = ledger := by
  apply Ledger.ext
  · rfl
  · funext other
    simp [collect]

theorem collect_credit {tag : Tag} {src : Rank} {srcs : List Rank} (apart : src ∉ srcs) :
    (ledger.credit (src, tag) (ledger.due (src, tag)).tail).collect tag srcs =
      ledger.collect tag (src :: srcs) := by
  apply Ledger.ext
  · rfl
  · funext ⟨other, label⟩
    simp only [collect, due_credit, Prod.mk.injEq, List.mem_cons]
    by_cases same : other = src
    · subst same
      by_cases labelled : label = tag <;> simp [labelled, apart]
    · simp [same]

theorem settle_pay : (ledger.pay entry rest).settle entry.2 = ledger.settle entry.2 := by
  apply Ledger.ext
  · funext other
    by_cases same : other = entry <;> simp [same]
  · rfl

theorem settle_eq_self {tag : Tag} (nothing : ∀ dst, ledger.owed (dst, tag) = []) :
    ledger.settle tag = ledger := by
  apply Ledger.ext
  · funext ⟨dst, other⟩
    by_cases same : other = tag <;> simp [same, nothing]
  · rfl

/-! ### The ledgers of all ranks -/

variable (ledgers : Rank → Ledger) (rank other : Rank)

theorem due_update_pay :
    (Function.update ledgers rank ((ledgers rank).pay entry rest) other).due = (ledgers other).due := by
  by_cases same : other = rank
  · rw [same, Function.update_self, due_pay]
  · rw [Function.update_of_ne same]

theorem owed_update_credit :
    (Function.update ledgers rank ((ledgers rank).credit entry rest) other).owed =
      (ledgers other).owed := by
  by_cases same : other = rank
  · rw [same, Function.update_self, owed_credit]
  · rw [Function.update_of_ne same]

theorem owed_update_pay (item : Rank × Tag) :
    (Function.update ledgers rank ((ledgers rank).pay entry rest) other).owed item =
      if other = rank ∧ item = entry then rest else (ledgers other).owed item := by
  by_cases same : other = rank
  · simp [same]
  · simp [same]

theorem due_update_credit (item : Rank × Tag) :
    (Function.update ledgers rank ((ledgers rank).credit entry rest) other).due item =
      if other = rank ∧ item = entry then rest else (ledgers other).due item := by
  by_cases same : other = rank
  · simp [same]
  · simp [same]

end Ledger

namespace Program

variable {α β : Type} {size : Rank} {first : Tag} {ledger : Ledger}

/-- A program sends only what is owed, waits only for ranks of the group, and ends with a ledger and a
value that belong together.  It does not wait before it has sent all that is owed under the first tag, and
before it has sent everything only for messages under that tag that are due. -/
inductive Keeps (size : Rank) (first : Tag) (ends : Ledger → α → Prop) :
    Ledger → Program α → Prop where
  | done {ledger : Ledger} {value : α} (ended : ends ledger value) :
      Keeps size first ends ledger (.done value)
  | send {ledger : Ledger} {dst : Rank} {tag : Tag} {body : Bytes} {next : Program α}
      {others : List Bytes} (owed : ledger.owed (dst, tag) = body :: others)
      (rest : Keeps size first ends (ledger.pay (dst, tag) others) next) :
      Keeps size first ends ledger (.send dst tag body next)
  | receive {ledger : Ledger} {src : Rank} {tag : Tag} {next : Option Bytes → Program α}
      (inside : src < size) (prompt : ∀ dst, ledger.owed (dst, first) = [])
      (idle : (tag = first → ledger.due (src, tag) = []) → ledger.Clear)
      (rest : Keeps size first ends (ledger.credit (src, tag) (ledger.due (src, tag)).tail)
        (next (ledger.due (src, tag)).head?)) :
      Keeps size first ends ledger (.receive src tag next)

theorem Keeps.mono {program : Program α} {ends weaker : Ledger → α → Prop}
    (keeps : Keeps size first ends ledger program)
    (weaken : ∀ ledger value, ends ledger value → weaker ledger value) :
    Keeps size first weaker ledger program := by
  induction keeps with
  | done ended => exact .done (weaken _ _ ended)
  | send owed _ ih => exact .send owed ih
  | receive inside prompt idle _ ih => exact .receive inside prompt idle ih

/-- A program, and then one that keeps the ledger with which the first may end. -/
theorem Keeps.bind {program : Program α} {next : α → Program β} {ends : Ledger → α → Prop}
    {last : Ledger → β → Prop} (keeps : Keeps size first ends ledger program)
    (rest : ∀ ledger value, ends ledger value → Keeps size first last ledger (next value)) :
    Keeps size first last ledger (program.bind next) := by
  induction keeps with
  | done ended => exact rest _ _ ended
  | send owed _ ih => exact .send owed ih
  | receive inside prompt idle _ ih => exact .receive inside prompt idle ih

end Program

namespace Group

variable {α : Type} {size : Rank} {first : Tag} {ends : Rank → Ledger → α → Prop}
  {ledgers : Rank → Ledger} {group moved last : Group α}

/-- The messages due at an address are on their way or still owed. -/
def Accounted (ledgers : Rank → Ledger) (mail : Mail) (address : Address) : Prop :=
  (ledgers address.dst).due (address.src, address.tag) =
    mail.queue address ++ (ledgers address.src).owed (address.dst, address.tag)

/-- The ledgers of a group agree with its programs and its mail. -/
structure Balances (size : Rank) (first : Tag) (ends : Rank → Ledger → α → Prop)
    (ledgers : Rank → Ledger) (group : Group α) : Prop where
  length : group.programs.length = size.toNat
  keeps : ∀ (position : Nat) (program : Program α), group.programs[position]? = some program →
    program.Keeps size first (ends (rankAt position)) (ledgers (rankAt position))
  accounted : ∀ address, Accounted ledgers group.mail address

theorem Balances.numbered (balances : Balances size first ends ledgers group) : Numbered group := by
  rw [Numbered, balances.length]
  exact Nat.le_of_lt size.toNat_lt

/-- The program of a rank of the group. -/
theorem Balances.exists_program (balances : Balances size first ends ledgers group) {rank : Rank}
    (inside : rank < size) : ∃ program, group.programs[rank.toNat]? = some program := by
  have placed : rank.toNat < group.programs.length := by
    rw [balances.length]
    exact UInt64.lt_iff_toNat_lt.1 inside
  exact ⟨_, List.getElem?_eq_getElem placed⟩

/-! ## What a move does to the ledgers -/

section Moves

variable {position : Nat} {src dst : Rank} {tag : Tag}

/-- When a rank has gone on, its program keeps its new ledger, and the others keep theirs. -/
theorem Balances.keeps_set (balances : Balances size first ends ledgers group)
    {before after : Program α} (found : group.programs[position]? = some before) {ledger : Ledger}
    (onward : after.Keeps size first (ends (rankAt position)) ledger) (place : Nat)
    (program : Program α) (placed : (group.programs.set position after)[place]? = some program) :
    program.Keeps size first (ends (rankAt place))
      (Function.update ledgers (rankAt position) ledger (rankAt place)) := by
  by_cases here : position = place
  · subst here
    rw [List.getElem?_set_self (List.getElem?_eq_some_iff.1 found).1] at placed
    cases placed
    rwa [Function.update_self]
  · rw [List.getElem?_set_ne here] at placed
    have apart := rankAt_ne (balances.numbered.lt placed) (balances.numbered.lt found) (Ne.symm here)
    rw [Function.update_of_ne apart]
    exact balances.keeps place program placed

/-- An address that a move leaves alone stays accounted for. -/
theorem Accounted.congr {later : Rank → Ledger} {mail rest : Mail} {address : Address}
    (accounted : Accounted ledgers mail address)
    (due : (later address.dst).due (address.src, address.tag) =
      (ledgers address.dst).due (address.src, address.tag))
    (owed : (later address.src).owed (address.dst, address.tag) =
      (ledgers address.src).owed (address.dst, address.tag))
    (queue : rest.queue address = mail.queue address) : Accounted later rest address := by
  rw [Accounted, due, owed, queue]
  exact accounted

theorem Balances.send (balances : Balances size first ends ledgers group) {body : Bytes}
    {next : Program α} (found : group.programs[position]? = some (.send dst tag body next)) :
    ∃ ledger, Balances size first ends (Function.update ledgers (rankAt position) ledger)
      ⟨group.programs.set position next, group.mail.post ⟨rankAt position, dst, tag⟩ body⟩ := by
  cases balances.keeps position _ found with
  | send owed onward =>
      refine ⟨_, ?_, balances.keeps_set found onward, ?_⟩
      · simpa using balances.length
      · intro address
        by_cases posted : address = ⟨rankAt position, dst, tag⟩
        · subst posted
          rw [Accounted, Ledger.due_update_pay, balances.accounted ⟨rankAt position, dst, tag⟩, owed,
            Ledger.owed_update_pay, if_pos ⟨rfl, rfl⟩, Mail.queue_post, if_pos rfl, List.append_assoc,
            List.singleton_append]
        · apply (balances.accounted address).congr
          · rw [Ledger.due_update_pay]
          · rw [Ledger.owed_update_pay, if_neg]
            rintro ⟨mine, entry⟩
            cases address
            cases mine
            cases entry
            exact posted rfl
          · rw [Mail.queue_post, if_neg posted]

/-- A rank hears the first message that is due, and the others stay due. -/
theorem Balances.hear (balances : Balances size first ends ledgers group)
    {next : Option Bytes → Program α} {mail : Mail}
    (found : group.programs[position]? = some (.receive src tag next))
    (left : ((ledgers (rankAt position)).due (src, tag)).tail =
      mail.queue ⟨src, rankAt position, tag⟩ ++ (ledgers src).owed (rankAt position, tag))
    (others : ∀ other, other ≠ ⟨src, rankAt position, tag⟩ →
      mail.queue other = group.mail.queue other) :
    ∃ ledger, Balances size first ends (Function.update ledgers (rankAt position) ledger)
      ⟨group.programs.set position (next ((ledgers (rankAt position)).due (src, tag)).head?), mail⟩ := by
  cases balances.keeps position _ found with
  | receive _ _ _ onward =>
      refine ⟨_, ?_, balances.keeps_set found onward, ?_⟩
      · simpa using balances.length
      · intro address
        by_cases asked : address = ⟨src, rankAt position, tag⟩
        · subst asked
          rw [Accounted, Ledger.due_update_credit, if_pos ⟨rfl, rfl⟩, Ledger.owed_update_credit]
          exact left
        · apply (balances.accounted address).congr
          · rw [Ledger.due_update_credit, if_neg]
            rintro ⟨mine, entry⟩
            cases address
            cases mine
            cases entry
            exact asked rfl
          · rw [Ledger.owed_update_credit]
          · exact others address asked

theorem Balances.receive (balances : Balances size first ends ledgers group)
    {next : Option Bytes → Program α} {body : Bytes} {mail : Mail}
    (found : group.programs[position]? = some (.receive src tag next))
    (taken : group.mail.take? ⟨src, rankAt position, tag⟩ = some (body, mail)) :
    ∃ ledger, Balances size first ends (Function.update ledgers (rankAt position) ledger)
      ⟨group.programs.set position (next (some body)), mail⟩ := by
  rcases Mail.queue_of_take? taken with ⟨queued, others⟩
  have due := balances.accounted ⟨src, rankAt position, tag⟩
  rw [Accounted, queued, List.cons_append] at due
  have left : ((ledgers (rankAt position)).due (src, tag)).tail =
      mail.queue ⟨src, rankAt position, tag⟩ ++ (ledgers src).owed (rankAt position, tag) := by
    rw [due, List.tail_cons]
  have heard := balances.hear found left others
  rwa [due, List.head?_cons] at heard

/-- A step is an entry in the ledger of one rank. -/
theorem Balances.step (balances : Balances size first ends ledgers group) (step : Step group moved) :
    ∃ position before after mail ledger, group.programs[position]? = some before ∧
      before.Acts (rankAt position) group.mail after mail ∧
      moved = ⟨group.programs.set position after, mail⟩ ∧
      Balances size first ends (Function.update ledgers (rankAt position) ledger) moved := by
  cases step with
  | send found =>
      rcases balances.send found with ⟨ledger, sent⟩
      exact ⟨_, _, _, _, ledger, found, .send, rfl, sent⟩
  | receive found taken =>
      rcases balances.receive found taken with ⟨ledger, received⟩
      exact ⟨_, _, _, _, ledger, found, .receive taken, rfl, received⟩

end Moves

/-! ## Nothing that is due is given up -/

section Clear

variable (paid : ∀ rank ledger value, ends rank ledger value → ledger.Clear)

include paid

/-- Where no rank can step, no rank owes anything. -/
theorem Balances.clear (balances : Balances size first ends ledgers group)
    (stuck : ∀ moved, ¬ Step group moved) {rank : Rank} (inside : rank < size) :
    (ledgers rank).Clear := by
  have prompt : ∀ src < size, ∀ dst, (ledgers src).owed (dst, first) = [] := by
    intro src below dst
    rcases balances.exists_program below with ⟨program, found⟩
    have keeps := balances.keeps _ _ found
    rw [Seat.rankAt_toNat] at keeps
    cases keeps with
    | done ended => exact paid src _ _ ended (dst, first)
    | send => exact absurd (.send found) (stuck _)
    | receive _ prompt => exact prompt dst
  rcases balances.exists_program inside with ⟨program, found⟩
  have keeps := balances.keeps _ _ found
  rw [Seat.rankAt_toNat] at keeps
  cases keeps with
  | done ended => exact paid rank _ _ ended
  | send => exact absurd (.send found) (stuck _)
  | @receive _ src tag _ below _ idle =>
      apply idle
      intro labelled
      have gone := lost_of_not_step stuck found _ (.refl group)
      rw [Seat.rankAt_toNat, Mail.take?_eq_none_iff] at gone
      have due := balances.accounted ⟨src, rank, tag⟩
      rw [Accounted, gone, labelled, prompt src below rank] at due
      rw [labelled, due, List.append_nil]

/-- A message that never comes was not due. -/
theorem Balances.due_of_lost (balances : Balances size first ends ledgers group) {position : Nat}
    {src : Rank} {tag : Tag} {next : Option Bytes → Program α}
    (found : group.programs[position]? = some (.receive src tag next))
    (lost : group.Lost ⟨src, rankAt position, tag⟩) :
    (ledgers (rankAt position)).due (src, tag) = [] := by
  rcases exists_stuck group with ⟨last, steps, stuck⟩
  -- The rank waits still where the others have done all that they can, with the same ledger.
  have waits : ∃ later, Balances size first ends later last ∧
      later (rankAt position) = ledgers (rankAt position) ∧
      last.programs[position]? = some (.receive src tag next) := by
    clear stuck
    induction steps with
    | refl => exact ⟨ledgers, balances, rfl, found⟩
    | tail front step ih =>
        rcases ih with ⟨later, balances, same, waiting⟩
        rcases balances.step step with ⟨place, before, after, mail, ledger, here, acts, rfl, balanced⟩
        have elsewhere : place ≠ position := by
          rintro rfl
          rw [waiting] at here
          cases here
          cases acts with
          | receive taken =>
              rw [lost _ front] at taken
              cases taken
        have apart := rankAt_ne (balances.numbered.lt here) (balances.numbered.lt waiting) elsewhere
        refine ⟨_, balanced, ?_, ?_⟩
        · rw [Function.update_of_ne (Ne.symm apart), same]
        · rw [List.getElem?_set_ne elsewhere, waiting]
  rcases waits with ⟨later, balanced, same, waiting⟩
  have gone := lost last steps
  rw [Mail.take?_eq_none_iff] at gone
  cases balanced.keeps _ _ waiting with
  | receive inside =>
      have due := balanced.accounted ⟨src, rankAt position, tag⟩
      rwa [Accounted, gone, balanced.clear paid stuck inside, same] at due

/-- Every move is an entry in the ledger of one rank, and the ledgers still agree with the mail. -/
theorem Balances.move (balances : Balances size first ends ledgers group) (move : Move group moved) :
    ∃ ledgers, Balances size first ends ledgers moved := by
  cases move with
  | inl step =>
      rcases balances.step step with ⟨_, _, _, _, ledger, _, _, _, balanced⟩
      exact ⟨_, balanced⟩
  | inr giveUp =>
      cases giveUp with
      | giveUp found lost =>
          rename_i position src tag next
          have due := balances.due_of_lost paid found lost
          have left := balances.accounted ⟨src, rankAt position, tag⟩
          rw [Accounted, due, ← List.tail_nil, ← due] at left
          have heard := balances.hear found left fun _ _ => rfl
          rw [due] at heard
          rcases heard with ⟨ledger, balanced⟩
          exact ⟨_, balanced⟩

/-- The ledgers agree with the mail wherever a schedule leads. -/
theorem Balances.reaches (balances : Balances size first ends ledgers group)
    (moves : Reaches Move group last) : ∃ ledgers, Balances size first ends ledgers last := by
  induction moves with
  | refl => exact ⟨ledgers, balances⟩
  | tail _ move ih =>
      rcases ih with ⟨ledgers, balances⟩
      exact balances.move paid move

end Clear

end Group

end Subdomain

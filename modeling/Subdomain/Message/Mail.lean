import Subdomain.Message.Program

/-!
# Mail

The messages that have been sent and not yet received: a queue for every sender, receiver and tag.
Only queues that hold a message are kept.

Main statements: what posting and taking do to each queue (`queue_post`, `queue_of_take?`), and
`ext`: mail with the same queues is equal, so the order in which messages entered different queues
leaves no trace.
-/

namespace Subdomain

/-- Who sends to whom, under which tag. -/
structure Address where
  src : Rank
  dst : Rank
  tag : Tag
  deriving DecidableEq, Repr

namespace Address

/-- Addresses are ordered by sender, then receiver and tag. -/
def order : Address → Address → Ordering :=
  compareLex (compareOn src) (compareLex (compareOn dst) (compareOn tag))

instance : Ord Address where
  compare := order

instance : Std.TransOrd Address :=
  inferInstanceAs (Std.TransCmp
    (compareLex (compareOn src) (compareLex (compareOn dst) (compareOn tag))))

instance : Std.LawfulEqOrd Address where
  eq_of_compare {first second} equal := by
    have fields : order first second = .eq := equal
    simp only [order, compareLex, compareOn, Ordering.then_eq_eq,
      Std.LawfulEqCmp.compare_eq_iff_eq] at fields
    cases first
    cases second
    simp_all

end Address

/-- The messages on their way, in one queue for each address. -/
structure Mail where
  queues : SortedMap Address (List Bytes) := ∅
  filled : ∀ entry ∈ queues.toList, entry.2 ≠ [] := by simp
  deriving DecidableEq

namespace Mail

instance : EmptyCollection Mail where
  emptyCollection := { queues := ∅ }

/-- The messages on their way to an address, first sent first. -/
def queue (mail : Mail) (address : Address) : List Bytes :=
  (mail.queues.get? address).getD []

/-- Replace the queue of an address. -/
def setQueue (mail : Mail) (address : Address) (messages : List Bytes) : Mail :=
  if empty : messages = [] then
    { queues := mail.queues.erase address
      filled := fun entry member => mail.filled entry (List.mem_filter.1 member).1 }
  else
    { queues := mail.queues.insert address messages
      filled := fun entry member => by
        cases SortedMap.mem_insertAscending member with
        | inl equal => exact equal ▸ empty
        | inr member => exact mail.filled entry member }

/-- Send a message. -/
def post (mail : Mail) (address : Address) (body : Bytes) : Mail :=
  mail.setQueue address (mail.queue address ++ [body])

/-- Take the first message of an address. -/
def take? (mail : Mail) (address : Address) : Option (Bytes × Mail) :=
  match mail.queue address with
  | [] => none
  | body :: rest => some (body, mail.setQueue address rest)

@[simp] theorem queue_empty (address : Address) : (∅ : Mail).queue address = [] := rfl

@[simp] theorem queue_setQueue (mail : Mail) (address other : Address) (messages : List Bytes) :
    (mail.setQueue address messages).queue other =
      if other = address then messages else mail.queue other := by
  unfold setQueue queue
  split
  · next empty =>
    simp only [SortedMap.get?_erase, Std.LawfulEqCmp.compare_eq_iff_eq]
    split <;> simp [empty]
  · simp only [SortedMap.get?_insert, Std.LawfulEqCmp.compare_eq_iff_eq]
    split <;> simp

theorem queue_post (mail : Mail) (address other : Address) (body : Bytes) :
    (mail.post address body).queue other =
      if other = address then mail.queue address ++ [body] else mail.queue other :=
  queue_setQueue ..

theorem take?_eq_none_iff {mail : Mail} {address : Address} :
    mail.take? address = none ↔ mail.queue address = [] := by
  unfold take?
  split <;> simp_all

theorem queue_of_take? {mail rest : Mail} {address : Address} {body : Bytes}
    (taken : mail.take? address = some (body, rest)) :
    mail.queue address = body :: rest.queue address ∧
      ∀ other, other ≠ address → rest.queue other = mail.queue other := by
  unfold take? at taken
  split at taken
  · cases taken
  · next found =>
    cases taken
    constructor
    · simp [found]
    · intro other different
      simp [different]

theorem get?_queues (mail : Mail) (address : Address) :
    mail.queues.get? address =
      if mail.queue address = [] then none else some (mail.queue address) := by
  unfold queue
  cases found : mail.queues.get? address with
  | none => rfl
  | some messages =>
    have filled := mail.filled _ (SortedMap.get?_eq_some_iff.1 found)
    simp [filled]

/-- Mail with the same queues is equal. -/
@[ext] theorem ext {first second : Mail}
    (queues : ∀ address, first.queue address = second.queue address) : first = second := by
  have equal : first.queues = second.queues := by
    apply SortedMap.ext
    intro address
    rw [get?_queues, get?_queues, queues]
  cases first
  cases second
  simp_all

end Mail

end Subdomain

import Subdomain.Message.Mail

/-!
# Groups of ranks

The ranks of a group run their programs side by side and share one mail. Messages of one sender,
receiver and tag are received in the order in which they were sent. A rank that waits for a message
gives up if that message never comes: the sender may have ended, or wait itself for a message that
never comes.

`Step` is the relation of sends and receives in any order of the ranks, and `Move` adds giving up.
`Group.run` lets the first rank step that can, and the first that waits give up where none can, until
all have ended. `Group.runFor` does so up to a number of moves.

Main statements: both make moves of the relation (`reaches_run`), every rank ends (`ended_run`), and a
limited run that cannot go on is the whole run (`run_eq_runFor`).
-/

namespace Subdomain

/-- A place in a group: which rank, out of how many. -/
structure Seat where
  rank : Rank
  size : Rank
  rank_lt : rank < size
  deriving DecidableEq, Repr

namespace Seat

/-- The only place in a group of one. -/
def alone : Seat := ⟨0, 1, by decide⟩

/-- The places of a group in rank order. -/
def all (size : Rank) : List Seat :=
  (ranksBelow size).attach.map fun ⟨rank, member⟩ => ⟨rank, size, mem_ranksBelow.1 member⟩

@[simp] theorem length_all (size : Rank) : (all size).length = size.toNat := by
  simp [all]

/-- The ranks of the group in ascending order. -/
def ranks (seat : Seat) : List Rank := ranksBelow seat.size

/-- The other ranks of the group in ascending order. -/
def peers (seat : Seat) : List Rank := seat.ranks.filter (· != seat.rank)

/-- The text that names a place in a group. -/
def describe (seat : Seat) : String :=
  "LocalComm \x7b rank: " ++ toString seat.rank ++ ", size: " ++ toString seat.size ++ " \x7d"

end Seat

/-- The text that names a rank that is alone. -/
def aloneText : String := "NoComm"

/-- The programs of the ranks, in rank order, and the mail. -/
structure Group (α : Type) where
  programs : List (Program α)
  mail : Mail := ∅

namespace Group

variable {α : Type}

/-- A group that makes the same call on every rank. -/
def ofCall (size : Rank) (call : Seat → Program α) : Group α where
  programs := (Seat.all size).map call

/-- The rank at a position. -/
def rankAt (position : Nat) : Rank := .ofNat position

/-- A rank sends a message, or receives one that is in the mail. -/
inductive Step : Group α → Group α → Prop where
  | send {group : Group α} {position : Nat} {dst : Rank} {tag : Tag} {body : Bytes}
      {next : Program α} (found : group.programs[position]? = some (.send dst tag body next)) :
      Step group ⟨group.programs.set position next,
        group.mail.post ⟨rankAt position, dst, tag⟩ body⟩
  | receive {group : Group α} {position : Nat} {src : Rank} {tag : Tag}
      {next : Option Bytes → Program α} {body : Bytes} {mail : Mail}
      (found : group.programs[position]? = some (.receive src tag next))
      (taken : group.mail.take? ⟨src, rankAt position, tag⟩ = some (body, mail)) :
      Step group ⟨group.programs.set position (next (some body)), mail⟩

/-- Any number of moves. -/
inductive Reaches (relation : Group α → Group α → Prop) : Group α → Group α → Prop where
  | refl (group : Group α) : Reaches relation group group
  | tail {first middle last : Group α} :
      Reaches relation first middle → relation middle last → Reaches relation first last

theorem Reaches.head {relation : Group α → Group α → Prop} {first second last : Group α}
    (step : relation first second) (rest : Reaches relation second last) :
    Reaches relation first last := by
  induction rest with
  | refl => exact .tail (.refl _) step
  | tail _ last ih => exact .tail ih last

/-- No message ever comes to an address, whatever the ranks send and receive. -/
def Lost (group : Group α) (address : Address) : Prop :=
  ∀ later, Reaches Step group later → later.mail.take? address = none

/-- A rank gives up waiting for a message that never comes. -/
inductive GiveUp : Group α → Group α → Prop where
  | giveUp {group : Group α} {position : Nat} {src : Rank} {tag : Tag}
      {next : Option Bytes → Program α}
      (found : group.programs[position]? = some (.receive src tag next))
      (lost : group.Lost ⟨src, rankAt position, tag⟩) :
      GiveUp group ⟨group.programs.set position (next none), group.mail⟩

/-- A rank steps or gives up. -/
def Move (before after : Group α) : Prop := Step before after ∨ GiveUp before after

/-! ## One schedule -/

/-- Let the rank at a position send or receive, if it can. -/
def stepAt? (group : Group α) (position : Nat) : Option (Group α) :=
  match group.programs[position]? with
  | some (.send dst tag body next) =>
      some ⟨group.programs.set position next, group.mail.post ⟨rankAt position, dst, tag⟩ body⟩
  | some (.receive src tag next) =>
      (group.mail.take? ⟨src, rankAt position, tag⟩).map fun (body, mail) =>
        ⟨group.programs.set position (next (some body)), mail⟩
  | _ => none

/-- Let the rank at a position give up, if it waits. -/
def giveUpAt? (group : Group α) (position : Nat) : Option (Group α) :=
  match group.programs[position]? with
  | some (.receive _ _ next) => some ⟨group.programs.set position (next none), group.mail⟩
  | _ => none

/-- Let the first rank step that can, and if none can, the first that waits give up. -/
def move? (group : Group α) : Option (Group α) :=
  let positions := List.range group.programs.length
  (positions.findSome? group.stepAt?).or (positions.findSome? group.giveUpAt?)

variable {group moved : Group α} {position : Nat}

theorem step_of_stepAt? (stepped : group.stepAt? position = some moved) : Step group moved := by
  unfold stepAt? at stepped
  split at stepped
  · next found =>
    cases stepped
    exact .send found
  · next found =>
    rcases Option.map_eq_some_iff.1 stepped with ⟨_, taken, rfl⟩
    exact .receive found taken
  · cases stepped

theorem exists_stepAt? (step : Step group moved) :
    ∃ position < group.programs.length, group.stepAt? position = some moved := by
  cases step with
  | send found =>
    refine ⟨_, (List.getElem?_eq_some_iff.1 found).1, ?_⟩
    simp only [stepAt?, found]
  | receive found taken =>
    refine ⟨_, (List.getElem?_eq_some_iff.1 found).1, ?_⟩
    simp only [stepAt?, found, taken, Option.map_some]

theorem not_step (stuck : (List.range group.programs.length).findSome? group.stepAt? = none) :
    ¬ Step group moved := by
  intro step
  rcases exists_stepAt? step with ⟨position, inside, stepped⟩
  have waits := List.findSome?_eq_none_iff.1 stuck position (List.mem_range.2 inside)
  rw [stepped] at waits
  cases waits

/-- Where no rank can step, what a rank waits for never comes. -/
theorem lost_of_not_step (stuck : ∀ moved, ¬ Step group moved) {src : Rank} {tag : Tag}
    {next : Option Bytes → Program α}
    (found : group.programs[position]? = some (.receive src tag next)) :
    group.Lost ⟨src, rankAt position, tag⟩ := by
  intro later reached
  have same : later = group := by
    induction reached with
    | refl => rfl
    | tail _ step ih => exact absurd (ih ▸ step) (stuck _)
  rw [same]
  cases taken : group.mail.take? ⟨src, rankAt position, tag⟩ with
  | none => rfl
  | some message => exact absurd (.receive found taken) (stuck _)

theorem move_of_move? (moves : group.move? = some moved) : Move group moved := by
  rcases Option.or_eq_some_iff.1 moves with stepped | ⟨stuck, gaveUp⟩
  · rcases List.exists_of_findSome?_eq_some stepped with ⟨_, _, stepped⟩
    exact .inl (step_of_stepAt? stepped)
  · rcases List.exists_of_findSome?_eq_some gaveUp with ⟨_, _, gaveUp⟩
    unfold giveUpAt? at gaveUp
    split at gaveUp
    · next found =>
      cases gaveUp
      exact .inr (.giveUp found (lost_of_not_step (fun _ => not_step stuck) found))
    · cases gaveUp

/-- Every rank has ended. -/
def Ended (group : Group α) : Prop := ∀ program ∈ group.programs, program.isDone = true

/-- Only where all ranks have ended can none move. -/
theorem ended_of_move? (still : group.move? = none) : Ended group := by
  rcases Option.or_eq_none_iff.1 still with ⟨stuck, waiting⟩
  intro program member
  rcases List.mem_iff_getElem?.1 member with ⟨position, found⟩
  have inside := List.mem_range.2 (List.getElem?_eq_some_iff.1 found).1
  cases program with
  | done value => rfl
  | send dst tag body next =>
    have step : Step group _ := .send found
    exact absurd step (not_step stuck)
  | receive src tag next =>
    have gaveUp := List.findSome?_eq_none_iff.1 waiting position inside
    simp only [giveUpAt?, found] at gaveUp
    cases gaveUp

/-- One of the programs goes on and the others stay. -/
inductive Advances : List (Program α) → List (Program α) → Prop where
  | head {before after : Program α} (step : Program.Continues after before)
      (rest : List (Program α)) : Advances (after :: rest) (before :: rest)
  | tail (program : Program α) {before after : List (Program α)} (step : Advances after before) :
      Advances (program :: after) (program :: before)

theorem advances_set {programs : List (Program α)} {position : Nat} {before after : Program α}
    (found : programs[position]? = some before) (step : Program.Continues after before) :
    Advances (programs.set position after) programs := by
  induction programs generalizing position with
  | nil => simp at found
  | cons head rest ih =>
    cases position with
    | zero =>
      simp only [List.getElem?_cons_zero, Option.some.injEq] at found
      subst found
      exact .head step rest
    | succ position => exact .tail head (ih (by simpa using found))

/-- In a move one rank goes on. -/
theorem continues_of_move (move : Move group moved) : ∃ position before after,
    group.programs[position]? = some before ∧ Program.Continues after before ∧
      moved.programs = group.programs.set position after := by
  cases move with
  | inl step =>
    cases step with
    | send found => exact ⟨_, _, _, found, .send .., rfl⟩
    | receive found => exact ⟨_, _, _, found, .receive .., rfl⟩
  | inr giveUp =>
    cases giveUp with
    | giveUp found => exact ⟨_, _, _, found, .receive .., rfl⟩

theorem advances_of_move (move : Move group moved) : Advances moved.programs group.programs := by
  rcases continues_of_move move with ⟨position, before, after, found, continues, programs⟩
  rw [programs]
  exact advances_set found continues

theorem advances_acc (programs : List (Program α)) : Acc Advances programs := by
  induction programs with
  | nil => exact ⟨_, fun _ step => by cases step⟩
  | cons program rest ih =>
    induction Program.continues_acc program generalizing rest with
    | intro program _ ihProgram =>
      induction ih with
      | intro rest accessible ihRest =>
        refine ⟨_, fun _ step => ?_⟩
        cases step with
        | head step => exact ihProgram _ step rest ⟨rest, accessible⟩
        | tail _ step => exact ihRest _ step

theorem advances_wellFounded : WellFounded (Advances (α := α)) := ⟨advances_acc⟩

/-- Let the ranks move until all have ended. -/
def run (group : Group α) : Group α :=
  match _moved : group.move? with
  | some next => next.run
  | none => group
  termination_by advances_wellFounded.wrap group.programs
  decreasing_by exact advances_of_move (move_of_move? _moved)

/-- Let the ranks move, but not more often than a limit. -/
def runFor : Nat → Group α → Group α
  | 0, group => group
  | limit + 1, group =>
    match group.move? with
    | some next => runFor limit next
    | none => group

/-- The values that the ranks have ended with, in rank order. -/
def values (group : Group α) : List (Option α) := group.programs.map Program.value?

theorem reaches_run (group : Group α) : Reaches Move group group.run := by
  fun_induction run group with
  | case1 group next moved ih => exact .head (move_of_move? moved) ih
  | case2 group => exact .refl group

/-- No rank waits for ever. -/
theorem ended_run (group : Group α) : Ended group.run := by
  fun_induction run group with
  | case1 group next moved ih => exact ih
  | case2 group still => exact ended_of_move? still

/-- A limited run that ends where no rank can move is the whole run. -/
theorem run_eq_runFor {limit : Nat} {group : Group α} (ended : (runFor limit group).move? = none) :
    group.run = runFor limit group := by
  induction limit generalizing group with
  | zero =>
    rw [runFor] at ended ⊢
    rw [run]
    split
    · next moved =>
      rw [moved] at ended
      cases ended
    · rfl
  | succ limit ih =>
    rw [runFor] at ended ⊢
    rw [run]
    split
    · next moved =>
      rw [moved] at ended ⊢
      exact ih ended
    · next stuck => rw [stuck]

end Group

end Subdomain

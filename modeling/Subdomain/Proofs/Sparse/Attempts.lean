import Subdomain.Proofs.Sparse.Room

/-!
# Commits in place

A store is changed in place, and a commit may stop halfway.  The program of this module makes the
refusals and the writes of a commit in their order and keeps the store as it stands where it stops.
It stops before its first write, so a commit that fails is as if it had not been attempted.
-/

namespace Subdomain

/-! ## Drafts that come about -/

namespace Draft

variable {τ : Type} [Inhabited τ] {draft : Draft τ}

/-- A draft that changes make of a fresh one. -/
def Reachable (draft : Draft τ) : Prop :=
  ∃ (memory : Memory) (layout : Layout) (numSlots maxEntries : Nat) (fresh : Draft τ)
    (changes : List (Change τ)),
    Draft.create memory layout numSlots maxEntries = .ok fresh ∧ fresh.changeAll changes = .ok draft

/-- A draft follows the changes that made it. -/
theorem Reachable.follows (reachable : draft.Reachable) (before : Key → Option τ) :
    ∃ replay, Follows before draft replay := by
  obtain ⟨_, _, _, _, fresh, changes, created, changed⟩ := reachable
  have follows := (create_fresh created).follows before
  exact ⟨_, (follows.of_changeAll changed).2⟩

end Draft

/-! ## Attempts -/

/-- An attempt to commit a draft, with the memory that it is given and its working space. -/
structure Attempt (τ : Type) where
  memory : Memory
  scratch : Memory
  draft : Draft τ

namespace Store

variable {τ : Type} [Inhabited τ]

/-- Write merged rows to the store, first the exclusive rows, then the others one by one. -/
def installInPlace (swept : Scratch τ) : ExceptT Error (StateM (Store τ)) Unit := do
  modify (·.installExclusive swept.cells swept.extents)
  swept.pending.forM fun (number, row) => modify (·.installFixed number row)

/-- A commit step by step: the merged rows, for which the store is only read, the larger buffer, and
only then what it writes. -/
def commitInPlace (attempt : Attempt τ) : ExceptT Error (StateM (Store τ)) CommitStats := do
  let store ← get
  let (swept, erased) ← store.stage attempt.scratch attempt.draft
  if store.growsFor attempt.draft swept then
    set (← store.grow attempt.memory (store.grownCapacity attempt.draft swept))
  installInPlace swept
  return store.statsOf attempt.draft swept erased

/-- What an attempt reports, and the store that it leaves. -/
def attempt (store : Store τ) (attempt : Attempt τ) : Except Error CommitStats × Store τ :=
  (commitInPlace attempt).run.run store

theorem run_installInPlace (swept : Scratch τ) (target : Store τ) :
    (installInPlace swept).run.run target = (.ok (), target.install swept) := by
  have fixedRows : ∀ (rows : List (Nat × List (Cell τ))) (target : Store τ),
      (rows.forM fun (number, row) => (modify fun target : Store τ =>
          target.installFixed number row : ExceptT Error (StateM (Store τ)) PUnit)).run.run target =
      (.ok (), rows.foldl (fun target (number, row) => target.installFixed number row) target) := by
    intro rows target
    induction rows generalizing target with
    | nil => rfl
    | cons staged rows ih => exact ih (target.installFixed staged.1 staged.2)
  exact fixedRows swept.pending _

/-- An attempt ends as the commit of its draft does, and keeps the store as it was if that fails. -/
theorem attempt_eq (store : Store τ) (attempt : Attempt τ) :
    store.attempt attempt =
      match store.commit attempt.memory attempt.scratch attempt.draft with
      | .ok (next, stats) => (.ok stats, next)
      | .error error => (.error error, store) := by
  rw [Store.attempt, commitInPlace, commit, run_get_bind]
  cases store.stage attempt.scratch attempt.draft with
  | error error => rfl
  | ok staged =>
      obtain ⟨swept, erased⟩ := staged
      have writes : ∀ target : Store τ,
          (do installInPlace swept
              return store.statsOf attempt.draft swept erased :
            ExceptT Error (StateM (Store τ)) CommitStats).run.run target =
          (.ok (store.statsOf attempt.draft swept erased), target.install swept) := by
        intro target
        have written := run_installInPlace swept target
        simp only [ExceptT.run_bind, StateT.run_bind, written]
        rfl
      rw [ok_bind]
      dsimp only
      show (do
        if store.growsFor attempt.draft swept then
          set (← store.grow attempt.memory (store.grownCapacity attempt.draft swept))
        installInPlace swept
        return store.statsOf attempt.draft swept erased :
          ExceptT Error (StateM (Store τ)) CommitStats).run.run store = _
      rw [enlarge]
      cases store.growsFor attempt.draft swept with
      | false => exact writes store
      | true =>
          cases store.grow attempt.memory (store.grownCapacity attempt.draft swept) with
          | error => rfl
          | ok grown => exact writes grown

/-- Attempts one after the other: what each reports, and the store that they leave. -/
def attemptAll (store : Store τ) : List (Attempt τ) → List (Except Error CommitStats) × Store τ
  | [] => ([], store)
  | first :: rest =>
      let (outcome, next) := store.attempt first
      let (outcomes, last) := next.attemptAll rest
      (outcome :: outcomes, last)

/-- The attempts that succeed when all are made in turn. -/
def succeeding (store : Store τ) : List (Attempt τ) → List (Attempt τ)
  | [] => []
  | first :: rest =>
      let (outcome, next) := store.attempt first
      if outcome.isOk then first :: next.succeeding rest else next.succeeding rest

/-- A store that attempts make of a new one, whether they succeed or fail. -/
def Reachable (store : Store τ) : Prop :=
  ∃ (memory : Memory) (layout : Layout) (maxEntries reserveChunk : Nat) (first : Store τ)
    (attempts : List (Attempt τ)),
    Store.create memory layout maxEntries reserveChunk = .ok first ∧
      (∀ attempt ∈ attempts, attempt.draft.Reachable) ∧ (first.attemptAll attempts).2 = store

variable {store : Store τ} {before : Key → Option τ}

/-- An attempt takes a store that represents a map to one that represents a map. -/
theorem Represents.attempt (represents : Represents store before) {attempt : Attempt τ}
    (drafted : attempt.draft.Reachable) : ∃ after, Represents (store.attempt attempt).2 after := by
  rw [attempt_eq]
  cases done : store.commit attempt.memory attempt.scratch attempt.draft with
  | error error => exact ⟨before, represents⟩
  | ok result =>
      obtain ⟨replay, follows⟩ := drafted.follows before
      have committed := represents.committed follows.formed done
      exact ⟨replay.contents, committed.represents represents follows⟩

theorem Represents.attemptAll (represents : Represents store before) {attempts : List (Attempt τ)}
    (drafted : ∀ attempt ∈ attempts, attempt.draft.Reachable) :
    ∃ after, Represents (store.attemptAll attempts).2 after := by
  induction attempts generalizing store before with
  | nil => exact ⟨before, represents⟩
  | cons attempt attempts ih =>
      obtain ⟨between, represents⟩ := represents.attempt (drafted attempt List.mem_cons_self)
      exact ih represents fun other member => drafted other (List.mem_cons_of_mem _ member)

/-- Every store that comes about represents a map. -/
theorem Reachable.represents (reachable : store.Reachable) :
    ∃ contents, Represents store contents := by
  obtain ⟨_, _, _, _, first, attempts, created, drafted, rfl⟩ := reachable
  exact (create_created created).represents.attemptAll drafted

/-! ## Failed attempts -/

/-- An attempt on a store that comes about ends in the refusal of its draft, or succeeds. -/
theorem Reachable.attempt (reachable : store.Reachable) {attempt : Attempt τ}
    (drafted : attempt.draft.Reachable)
    (granted : attempt.scratch.grants
      (store.exclusiveUsed + attempt.draft.exclusiveInsertions) = true) :
    match store.refusal? attempt.memory attempt.draft with
    | some error => store.attempt attempt = (.error error, store)
    | none => ∃ stats next, store.attempt attempt = (.ok stats, next) := by
  obtain ⟨contents, represents⟩ := reachable.represents
  have formed : attempt.draft.maxEntries = store.maxEntries → attempt.draft.WellFormed := by
    intro sameWidth
    obtain ⟨_, follows⟩ := drafted.follows contents
    exact follows.formed
  have committed := represents.commit attempt.memory formed granted
  rw [attempt_eq]
  cases refused : store.refusal? attempt.memory attempt.draft with
  | some error =>
      rw [refused] at committed
      rw [committed]
  | none =>
      rw [refused] at committed
      obtain ⟨next, stats, done⟩ := committed
      rw [done]
      exact ⟨stats, next, rfl⟩

/-- Leaving out the attempts that fail changes neither what the others report nor the store. -/
theorem attemptAll_succeeding (store : Store τ) (attempts : List (Attempt τ)) :
    store.attemptAll (store.succeeding attempts) =
      ((store.attemptAll attempts).1.filter (·.isOk), (store.attemptAll attempts).2) := by
  induction attempts generalizing store with
  | nil => rfl
  | cons first rest ih =>
      have step := attempt_eq store first
      cases done : store.commit first.memory first.scratch first.draft with
      | error error =>
          rw [done] at step
          simp only [succeeding, Store.attemptAll, step]
          exact ih store
      | ok result =>
          rw [done] at step
          have made : (Except.ok result.2 : Except Error CommitStats).isOk = true := rfl
          simp only [succeeding, Store.attemptAll, step, if_pos made, ih result.1,
            List.filter_cons_of_pos made]

/-- An attempt fails on a draft for another layout, then for another row width, then on memory that
refuses the larger buffer, and on nothing else.  A failed attempt leaves the store as it was, so the
others report and leave what they would if it had not been made. -/
theorem attempt_fails_without_trace (reachable : store.Reachable) {attempt : Attempt τ}
    (drafted : attempt.draft.Reachable)
    (granted : attempt.scratch.grants
      (store.exclusiveUsed + attempt.draft.exclusiveInsertions) = true) :
    (match store.refusal? attempt.memory attempt.draft with
      | some error => store.attempt attempt = (.error error, store)
      | none => ∃ stats next, store.attempt attempt = (.ok stats, next)) ∧
    (∀ length bits, (store.attempt attempt).1 ≠ .error (.offsetCountOverflow length bits)) ∧
    (∀ row needed capacity,
      (store.attempt attempt).1 ≠ .error (.rowCapacityExceeded row needed capacity)) ∧
    ∀ attempts : List (Attempt τ),
      store.attemptAll (store.succeeding attempts) =
        ((store.attemptAll attempts).1.filter (·.isOk), (store.attemptAll attempts).2) := by
  have ends := reachable.attempt drafted granted
  have blames : ∀ error, (store.attempt attempt).1 = .error error →
      (∃ drafted committed, error = .layoutMismatch drafted committed) ∨
        (∃ reason, error = .invalidConfig reason) ∨
          ∃ length, error = .allocationFailed length := by
    intro error failed
    cases refused : store.refusal? attempt.memory attempt.draft with
    | some reason =>
        rw [refused] at ends
        rw [ends] at failed
        cases failed
        exact refusal?_eq_some refused
    | none =>
        rw [refused] at ends
        obtain ⟨stats, next, done⟩ := ends
        rw [done] at failed
        cases failed
  refine ⟨ends, fun length bits failed => ?_, fun row needed capacity failed => ?_,
    attemptAll_succeeding store⟩
  · rcases blames _ failed with ⟨_, _, same⟩ | ⟨_, same⟩ | ⟨_, same⟩ <;> cases same
  · rcases blames _ failed with ⟨_, _, same⟩ | ⟨_, same⟩ | ⟨_, same⟩ <;> cases same

/-- A draft for one exclusive and one ghost row that has written some cells to the exclusive row. -/
def draftOf (slots : List (Cell Nat)) : Draft Nat where
  layout := { exclusive := 1, ghost := 1 }
  numSlots := 2
  maxEntries := 3
  rows := [{ slots }, {}]
  exclusiveInsertions := slots.length

/-- A store of one exclusive row with a reserve of one cell, and one ghost row. -/
def emptyStore : Store Nat where
  layout := { exclusive := 1, ghost := 1 }
  maxEntries := 3
  reserveChunk := 1
  extents := [⟨0, 0⟩, ⟨1, 0⟩]
  cells := List.replicate 4 .vacant
  exclusiveCapacity := 1
  exclusiveUsed := 0
  reallocations := 0

/-- One cell was committed to the exclusive row, which uses up the reserve. -/
def fullStore : Store Nat := { emptyStore with
  extents := [⟨0, 1⟩, ⟨1, 0⟩], cells := [⟨1, 8⟩, .vacant, .vacant, .vacant], exclusiveUsed := 1 }

/-- Two attempts on memory of six cells: the first fits the reserve, the second asks for a larger buffer. -/
def twoAttempts : List (Attempt Nat) :=
  [[⟨1, 8⟩], [⟨0, 7⟩, ⟨2, 9⟩]].map fun slots => {
    memory := (Memory.ofElementBytes 8).capped 6
    scratch := .ofElementBytes 8
    draft := draftOf slots }

theorem create_emptyStore :
    Store.create (.ofElementBytes 8) { exclusive := 1, ghost := 1 } 3 1 = .ok emptyStore :=
  rfl

theorem reachable_twoAttempts : ∀ attempt ∈ twoAttempts, attempt.draft.Reachable := by
  let memory : Memory := .ofElementBytes 8
  let layout : Layout := { exclusive := 1, ghost := 1 }
  intro attempt member
  rcases List.mem_cons.1 member with rfl | member
  · exact ⟨memory, layout, 2, 3, draftOf [], [.set 0 1 8], rfl, by decide +kernel⟩
  · rw [List.mem_singleton.1 member]
    exact ⟨memory, layout, 2, 3, draftOf [], [.set 0 0 7, .set 0 2 9], rfl, by decide +kernel⟩

theorem attemptAll_twoAttempts : (emptyStore.attemptAll twoAttempts).2 = fullStore := by
  decide +kernel

/-- Memory refuses the seven cells that two more cells in the exclusive row ask for. -/
theorem attempt_fails_without_trace_fullStore :
    let attempt : Attempt Nat := {
      memory := (Memory.ofElementBytes 8).capped 6
      scratch := .ofElementBytes 8
      draft := draftOf [⟨0, 7⟩, ⟨2, 9⟩] }
    fullStore.attempt attempt = (.error (.allocationFailed 7), fullStore) ∧
      ∀ attempts : List (Attempt Nat),
        fullStore.attemptAll (fullStore.succeeding attempts) =
          ((fullStore.attemptAll attempts).1.filter (·.isOk),
            (fullStore.attemptAll attempts).2) := by
  intro attempt
  have full : fullStore.Reachable :=
    ⟨_, _, 3, 1, emptyStore, twoAttempts, create_emptyStore, reachable_twoAttempts,
      attemptAll_twoAttempts⟩
  have drafted : attempt.draft.Reachable :=
    reachable_twoAttempts attempt (List.mem_cons_of_mem _ List.mem_cons_self)
  have ends := @attempt_fails_without_trace Nat _ fullStore full attempt drafted rfl
  have refused : fullStore.refusal? attempt.memory attempt.draft = some (.allocationFailed 7) := by
    decide +kernel
  rw [refused] at ends
  exact ⟨ends.1, ends.2.2.2⟩

end Store

end Subdomain

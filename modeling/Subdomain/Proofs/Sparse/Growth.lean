import Mathlib.Algebra.Order.BigOperators.Group.List
import Subdomain.Proofs.Sparse.Attempts

/-!
# How often the exclusive region grows

A commit enlarges the exclusive region exactly when the draft's insertions exceed the reserve, and
leaves a whole chunk free when it does.  The capacity beyond the first chunk is a potential: a growth
raises it by more than a chunk, and the insertions of all commits so far are at least as many, however
many of them overwrote or were erased.  The rows are bounded in number and in width, so the capacity
is bounded, and with it the number of growths in a run of any length.
-/

namespace Subdomain

/-! ## Lengths of exclusive rows -/

theorem length_flatten_le {α : Type} {rows : List (List α)} {width : Nat}
    (narrow : ∀ row ∈ rows, row.length ≤ width) : rows.flatten.length ≤ rows.length * width := by
  have lengths : ∀ length ∈ rows.map List.length, length ≤ width := by
    intro length member
    obtain ⟨row, found, rfl⟩ := List.mem_map.1 member
    exact narrow row found
  have bound := List.sum_le_card_nsmul (rows.map List.length) width lengths
  rwa [List.length_map, Nat.nsmul_eq_mul, ← List.length_flatten] at bound

namespace DraftRow

variable {τ : Type} {numSlots width : Nat} {row : DraftRow τ}

theorem WellFormed.length_cells_le (formed : row.WellFormed numSlots width) :
    row.cells.length ≤ width :=
  Cell.length_le_of_distinct formed.distinct_cells formed.below

end DraftRow

/-- A draft inserts each entry of an exclusive row at most once. -/
theorem Draft.WellFormed.exclusiveInsertions_le {τ : Type} {draft : Draft τ}
    (formed : draft.WellFormed) :
    draft.exclusiveInsertions ≤ draft.layout.exclusive * draft.maxEntries := by
  have narrow : ∀ cells ∈ (draft.rows.take draft.layout.exclusive).map DraftRow.cells,
      cells.length ≤ draft.maxEntries := by
    intro cells member
    obtain ⟨row, found, rfl⟩ := List.mem_map.1 member
    exact (formed.rows row (List.mem_of_mem_take found)).length_cells_le
  have bound := length_flatten_le narrow
  rw [List.length_map, List.length_take, ← List.flatMap_def] at bound
  rw [formed.counted, countCells]
  exact bound.trans (Nat.mul_le_mul_right _ (Nat.min_le_left _ _))

namespace Store

variable {τ : Type} [Inhabited τ] {store next : Store τ} {draft : Draft τ} {stats : CommitStats}
  {before : Key → Option τ}

/-- The exclusive rows together are no longer than their number and their width allow. -/
theorem Represents.used_le (represents : Represents store before) :
    store.exclusiveUsed ≤ store.layout.exclusive * store.maxEntries := by
  obtain ⟨exclusive, fixed, holds⟩ := represents.holds
  have narrow : ∀ row ∈ exclusive, row.length ≤ store.maxEntries := by
    intro row member
    have held : row ∈ store.contents := holds.contents ▸ List.mem_append_left _ member
    exact Cell.length_le_of_distinct (represents.ascending row held).distinct
      (represents.below row held)
  rw [← holds.used, ← holds.exclusiveCount]
  exact length_flatten_le narrow

/-! ## One commit -/

/-- What a commit does to the exclusive region: it grows if the insertions exceed the reserve, to what
was used, the insertions and a chunk, and otherwise stays as it is. -/
structure GrowsOnDemand (store : Store τ) (draft : Draft τ) (next : Store τ) (stats : CommitStats) :
    Prop where
  reallocated_iff : stats.reallocated = true ↔ store.exclusiveReserve < draft.exclusiveInsertions
  grown : store.exclusiveReserve < draft.exclusiveInsertions →
    next.exclusiveCapacity =
        store.exclusiveUsed + draft.exclusiveInsertions + store.reserveChunk ∧
      next.reallocations = store.reallocations + 1
  kept : ¬ store.exclusiveReserve < draft.exclusiveInsertions →
    next.exclusiveCapacity = store.exclusiveCapacity ∧ next.reallocations = store.reallocations

/-- The merged rows could outgrow the region, or the room that was asked for, only if the insertions
fell short of the growth.  They do not, so the insertions alone decide. -/
theorem Committed.growsOnDemand (committed : Committed store draft next stats)
    (represents : Represents store before) (formed : draft.WellFormed) :
    GrowsOnDemand store draft next stats := by
  obtain ⟨_, _, holds⟩ := represents.holds
  have packed := represents.packed_le formed committed.sameLayout
  have growth := growsFor_iff holds.roomy packed
  refine ⟨?_, fun exceeds => ?_, fun fits => ?_⟩
  · rw [committed.stats]
    exact growth
  · have grows := growth.2 exceeds
    constructor
    · rw [committed.exclusiveCapacity, if_pos grows, grownCapacity_eq packed]
    · rw [committed.reallocations, if_pos grows]
  · have stays : ¬ store.growsFor draft (store.swept draft) = true :=
      fun grows => fits (growth.1 grows)
    constructor
    · rw [committed.exclusiveCapacity, if_neg stays]
    · rw [committed.reallocations, if_neg stays]

/-- A commit uses up no more room than its insertions. -/
theorem Committed.used_le (committed : Committed store draft next stats)
    (represents : Represents store before) (formed : draft.WellFormed) :
    next.exclusiveUsed ≤ store.exclusiveUsed + draft.exclusiveInsertions := by
  have packed := represents.packed_le formed committed.sameLayout
  have written : (store.swept draft).cells.length = next.exclusiveUsed := by
    rw [← committed.holds.used, swept, stageExclusive, keptRows, ← List.map_take, List.map_map]
    rfl
  rwa [written] at packed

/-! ## Runs -/

/-- What the insertions of a run pay for: the used part of the exclusive region, and its capacity
beyond the first chunk, of which every growth takes more than a chunk. -/
structure Paid (insertions : Nat) (store : Store τ) : Prop where
  used : store.exclusiveUsed ≤ insertions
  capacity : store.exclusiveCapacity ≤ store.reserveChunk + insertions
  reallocations : store.reserveChunk + store.reallocations * (store.reserveChunk + 1) ≤
    store.exclusiveCapacity
  bounded : store.exclusiveCapacity ≤
    store.reserveChunk + 2 * (store.layout.exclusive * store.maxEntries)

theorem Created.paid {layout : Layout} {maxEntries reserveChunk : Nat}
    (created : Created layout maxEntries reserveChunk store) : Paid 0 store := by
  have nothing : store.exclusiveUsed = 0 := by
    rw [← created.holds.used, List.flatten_replicate_nil]
    rfl
  have chunk : store.exclusiveCapacity = store.reserveChunk :=
    created.capacity.trans created.sameChunk.symm
  refine ⟨Nat.le_of_eq nothing, Nat.le_of_eq chunk, ?_, chunk ▸ Nat.le_add_right _ _⟩
  rw [created.reallocations, Nat.zero_mul, chunk]
  exact Nat.le_refl _

/-- The insertions of a commit pay for its growth: they exceed the reserve, so the new capacity lies
more than a chunk above the old. -/
theorem Paid.commit {insertions : Nat} (paid : Paid insertions store)
    (represents : Represents store before) (committed : Committed store draft next stats)
    (formed : draft.WellFormed) : Paid (insertions + draft.exclusiveInsertions) next := by
  have demand := committed.growsOnDemand represents formed
  have usedAfter := committed.used_le represents formed
  have used := paid.used
  have capacity := paid.capacity
  have reallocations := paid.reallocations
  have bounded := paid.bounded
  by_cases exceeds : store.exclusiveReserve < draft.exclusiveInsertions
  · obtain ⟨grownCapacity, grownOnce⟩ := demand.grown exceeds
    have beyond : store.exclusiveCapacity < store.exclusiveUsed + draft.exclusiveInsertions := by
      rw [exclusiveReserve] at exceeds
      omega
    have occupied := represents.used_le
    have inserted : draft.exclusiveInsertions ≤ store.layout.exclusive * store.maxEntries :=
      committed.sameLayout ▸ committed.sameWidth ▸ formed.exclusiveInsertions_le
    constructor
    case used => omega
    case capacity =>
      rw [grownCapacity, committed.reserveChunk]
      omega
    case reallocations =>
      rw [grownCapacity, grownOnce, committed.reserveChunk, Nat.succ_mul]
      omega
    case bounded =>
      rw [grownCapacity, committed.reserveChunk, committed.layout, committed.maxEntries]
      omega
  · obtain ⟨keptCapacity, keptCount⟩ := demand.kept exceeds
    constructor
    case used => omega
    case capacity =>
      rw [keptCapacity, committed.reserveChunk]
      omega
    case reallocations =>
      rwa [keptCapacity, keptCount, committed.reserveChunk]
    case bounded =>
      rwa [keptCapacity, committed.reserveChunk, committed.layout, committed.maxEntries]

/-- The insertions into exclusive rows of all the attempts that succeed. -/
def totalInsertions (store : Store τ) (attempts : List (Attempt τ)) : Nat :=
  ((store.succeeding attempts).map fun attempt => attempt.draft.exclusiveInsertions).sum

/-- A commit of the attempt comes first, then the rest of the run. -/
theorem totalInsertions_cons (store : Store τ) (first : Attempt τ) (rest : List (Attempt τ)) :
    store.totalInsertions (first :: rest) =
      (if (store.attempt first).1.isOk then first.draft.exclusiveInsertions else 0) +
        (store.attempt first).2.totalInsertions rest := by
  simp only [totalInsertions, succeeding]
  split
  · rw [List.map_cons, List.sum_cons]
  · rw [Nat.zero_add]

/-- A run keeps its insertions paid for, and the shape of the store. -/
theorem Paid.attemptAll {insertions : Nat} (paid : Paid insertions store)
    (represents : Represents store before)
    {attempts : List (Attempt τ)} (drafted : ∀ attempt ∈ attempts, attempt.draft.Reachable) :
    let last := (store.attemptAll attempts).2
    Paid (insertions + store.totalInsertions attempts) last ∧
      (∃ after, Represents last after) ∧ last.layout = store.layout ∧
      last.maxEntries = store.maxEntries ∧ last.reserveChunk = store.reserveChunk := by
  induction attempts generalizing store insertions before with
  | nil => exact ⟨paid, ⟨before, represents⟩, rfl, rfl, rfl⟩
  | cons attempt attempts ih =>
      have later := fun other member => drafted other (List.mem_cons_of_mem _ member)
      rw [totalInsertions_cons, ← Nat.add_assoc]
      have step := attempt_eq store attempt
      cases done : store.commit attempt.memory attempt.scratch attempt.draft with
      | error error =>
          rw [done] at step
          simp only [Store.attemptAll, step]
          exact ih paid represents later
      | ok result =>
          obtain ⟨next, stats⟩ := result
          rw [done] at step
          obtain ⟨replay, follows⟩ :=
            (drafted attempt List.mem_cons_self).follows before
          have committed := represents.committed follows.formed done
          have rest := ih (paid.commit represents committed follows.formed)
            (committed.represents represents follows) later
          simp only [Store.attemptAll, step]
          rw [committed.layout, committed.maxEntries, committed.reserveChunk] at rest
          exact rest

/-- In a run of commits on a new store, failed ones included, a commit enlarges the exclusive region
exactly when its insertions exceed the reserve, to what was used, the insertions and a chunk.  Each
growth is paid for by more than a chunk of insertions, and the capacity is at most two full regions
and a chunk, so only boundedly many growths occur. -/
theorem growth_is_paid_and_bounded {memory : Memory} {layout : Layout}
    {maxEntries reserveChunk : Nat} {first : Store τ}
    (created : Store.create memory layout maxEntries reserveChunk = .ok first)
    {attempts : List (Attempt τ)} (drafted : ∀ attempt ∈ attempts, attempt.draft.Reachable) :
    let last := (first.attemptAll attempts).2
    (∀ (memory scratch : Memory) (draft : Draft τ) (next : Store τ) (stats : CommitStats),
      draft.Reachable → last.commit memory scratch draft = .ok (next, stats) →
        GrowsOnDemand last draft next stats) ∧
    last.reserveChunk = reserveChunk ∧
    last.reallocations * (reserveChunk + 1) ≤ first.totalInsertions attempts ∧
    reserveChunk ≤ last.exclusiveCapacity ∧
    last.reallocations * (reserveChunk + 1) ≤ last.exclusiveCapacity - reserveChunk ∧
    last.exclusiveCapacity ≤ reserveChunk + 2 * layout.exclusive * maxEntries ∧
    last.reallocations * (reserveChunk + 1) ≤ 2 * layout.exclusive * maxEntries := by
  intro last
  have isCreated := create_created created
  obtain ⟨paid, ⟨after, represents⟩, sameLayout, sameWidth, sameChunk⟩ :=
    isCreated.paid.attemptAll isCreated.represents drafted
  have chunk : last.reserveChunk = reserveChunk := sameChunk.trans isCreated.sameChunk
  have capacity : last.exclusiveCapacity ≤ reserveChunk + first.totalInsertions attempts := by
    have insertions := paid.capacity
    rwa [sameChunk, isCreated.sameChunk, Nat.zero_add] at insertions
  have reallocations :
      reserveChunk + last.reallocations * (reserveChunk + 1) ≤ last.exclusiveCapacity := by
    have counted := paid.reallocations
    rwa [sameChunk, isCreated.sameChunk] at counted
  have bounded : last.exclusiveCapacity ≤ reserveChunk + 2 * layout.exclusive * maxEntries := by
    have room := paid.bounded
    rwa [sameChunk, sameLayout, sameWidth, isCreated.sameChunk, isCreated.sameLayout,
      isCreated.sameWidth, ← Nat.mul_assoc] at room
  refine ⟨?_, chunk, by omega, by omega, by omega, bounded, by omega⟩
  intro memory scratch draft next stats reachable done
  obtain ⟨_, follows⟩ := reachable.follows after
  have committed := represents.committed follows.formed done
  exact committed.growsOnDemand represents follows.formed

/-- The two attempts on memory that grants the larger buffer. -/
def growingAttempts : List (Attempt Nat) :=
  twoAttempts.map fun attempt => { attempt with memory := .ofElementBytes 8 }

/-- Three insertions cause one growth, to one cell in use, two insertions and a chunk of one. -/
theorem growth_is_paid_and_bounded_growingAttempts :
    let last := (emptyStore.attemptAll growingAttempts).2
    last.exclusiveCapacity = 4 ∧ last.reallocations = 1 ∧
      emptyStore.totalInsertions growingAttempts = 3 ∧ last.reallocations * 2 ≤ 3 ∧
      last.reallocations * 2 ≤ last.exclusiveCapacity - 1 ∧ last.exclusiveCapacity ≤ 7 := by
  intro last
  have drafted : ∀ attempt ∈ growingAttempts, attempt.draft.Reachable := by
    intro attempt member
    obtain ⟨other, found, rfl⟩ := List.mem_map.1 member
    exact reachable_twoAttempts other found
  have counted : emptyStore.totalInsertions growingAttempts = 3 := by decide +kernel
  have bounds := growth_is_paid_and_bounded create_emptyStore drafted
  obtain ⟨-, -, paid, -, taken, bounded, -⟩ := bounds
  rw [counted] at paid
  exact ⟨by decide +kernel, by decide +kernel, counted, paid, taken, bounded⟩

end Store

end Subdomain

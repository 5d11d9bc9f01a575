import Subdomain.Proofs.Sparse.Attempts
import Subdomain.Proofs.Sparse.KeySets

/-!
# Slots are not observed

How many slots a row has decides which cells spill over, and nothing else.  Two drafts with different
slots that are called alike follow one replay: their calls report the same and their readings agree.
A commit sees of a row only its cells in the order of their entries, so they also commit alike.
-/

namespace Subdomain

/-! ## Ascending lists -/

/-- An ascending list is determined by its members. -/
theorem eq_of_pairwise_of_mem_iff {α : Type} {before : α → α → Prop}
    (asymmetric : ∀ first second, before first second → ¬ before second first)
    {first second : List α} (firstAscends : first.Pairwise before)
    (secondAscends : second.Pairwise before) (members : ∀ value, value ∈ first ↔ value ∈ second) :
    first = second := by
  have irreflexive : ∀ value, ¬ before value value := fun value less => asymmetric _ _ less less
  have distinct : ∀ {values : List α}, values.Pairwise before → values.Nodup := by
    intro values ascends
    apply ascends.imp
    intro left right less same
    exact irreflexive left (same ▸ less)
  have same : first.Perm second :=
    (List.perm_ext_iff_of_nodup (distinct firstAscends) (distinct secondAscends)).2 members
  apply same.eq_of_pairwise _ firstAscends secondAscends
  intro left right _ _ less greater
  exact absurd greater (asymmetric left right less)

/-- An ascending row is determined by its values. -/
theorem Cell.Ascending.ext {τ : Type} {first second : List (Cell τ)} (firstAscends : Ascending first)
    (secondAscends : Ascending second)
    (values : ∀ entry, value? first entry = value? second entry) : first = second := by
  apply eq_of_pairwise_of_mem_iff _ firstAscends secondAscends
  · intro cell
    rw [← value?_eq_some_iff firstAscends.distinct, values,
      value?_eq_some_iff secondAscends.distinct]
  · exact fun _ _ less => UInt64.lt_asymm less

/-! ## What a commit sees of a draft -/

namespace DraftRow

variable {τ : Type} {numSlots width : Nat} {row : DraftRow τ}

/-- The row with all its cells in slots. -/
def settle (row : DraftRow τ) : DraftRow τ where
  slots := Cell.sort row.cells
  erased := row.erased

theorem WellFormed.merge_nil_eq (formed : WellFormed numSlots width row) :
    Cell.merge [] row.slots (Cell.sort row.spare) = Cell.sort row.cells := by
  have steps := Cell.merged_merge [] row.slots (Cell.sort row.spare)
  have spareAscends := Cell.ascending_sort formed.distinct
  apply (steps.ascending .nil formed.ascending spareAscends).ext
    (Cell.ascending_sort formed.distinct_cells)
  intro entry
  have written := StagedRow.value?_merged [] formed entry
  rw [Cell.value?_nil, Option.or_none] at written
  rw [Cell.value?_sort formed.distinct_cells]
  exact written

/-- A settled row is merged as the row is, with whatever is committed. -/
theorem WellFormed.ofRow_settle (formed : WellFormed numSlots width row)
    (existing : List (Cell τ)) :
    StagedRow.ofRow existing row.settle = StagedRow.ofRow existing row := by
  have steps := Cell.merged_merge existing row.slots (Cell.sort row.spare)
  have settled := steps.through
  rw [formed.merge_nil_eq] at settled
  rw [StagedRow.ofRow, StagedRow.ofRow, ← settled]
  rfl

theorem settle_cells (row : DraftRow τ) : row.settle.cells.Perm row.cells := by
  simpa [settle, DraftRow.cells] using Cell.perm_sort (row.slots ++ row.spare)

theorem isPending_settle (row : DraftRow τ) : row.settle.isPending = row.isPending := by
  have cells : (row.settle.cells).isEmpty = row.cells.isEmpty := by
    exact row.settle_cells.isEmpty_eq
  rw [isPending, isPending, isTouched, isTouched, cells]
  rfl

theorem WellFormed.settle_eq {otherSlots : Nat} {other : DraftRow τ}
    (formed : WellFormed numSlots width row) (otherFormed : WellFormed otherSlots width other)
    (written : ∀ entry, row.written? entry = other.written? entry)
    (erased : ∀ entry, entry ∈ row.erased ↔ entry ∈ other.erased) : row.settle = other.settle := by
  have sameCells : Cell.sort row.cells = Cell.sort other.cells := by
    apply (Cell.ascending_sort formed.distinct_cells).ext
      (Cell.ascending_sort otherFormed.distinct_cells)
    intro entry
    rw [Cell.value?_sort formed.distinct_cells, Cell.value?_sort otherFormed.distinct_cells]
    exact written entry
  rw [settle, settle, sameCells, SortedSet.ext erased]

end DraftRow

namespace Draft

variable {τ : Type} {draft : Draft τ}

/-- The draft with all its cells in slots, however many there are. -/
def settle (draft : Draft τ) : Draft τ :=
  { draft with numSlots := 0, rows := draft.rows.map DraftRow.settle }

theorem erasures_settle (draft : Draft τ) : draft.settle.erasures = draft.erasures := by
  rw [erasures, settle, List.zipIdx_map, List.flatMap_map]
  rfl

theorem countCells_settle (rows : List (DraftRow τ)) (bound : Nat) :
    countCells (rows.map DraftRow.settle) bound = countCells rows bound := by
  have sameLength : ∀ row : DraftRow τ, row.settle.cells.length = row.cells.length :=
    fun row => row.settle_cells.length_eq
  simp only [countCells, ← List.map_take, List.flatMap_map, List.length_flatMap, sameLength]

end Draft

namespace Store

variable {τ : Type} {draft : Draft τ}

theorem stageExclusive_settle (store : Store τ) (formed : draft.WellFormed) :
    store.stageExclusive draft.settle = store.stageExclusive draft := by
  rw [stageExclusive, stageExclusive, Draft.settle, List.zip_map_right, ← List.map_take,
    List.map_map]
  apply List.map_congr_left
  rintro ⟨existing, row⟩ member
  have listed := (List.of_mem_zip (List.mem_of_mem_take member)).2
  exact (formed.rows row listed).ofRow_settle existing

theorem stageFixed_settle (store : Store τ) (formed : draft.WellFormed) :
    store.stageFixed draft.settle = store.stageFixed draft := by
  rw [stageFixed, stageFixed, Draft.settle, List.zip_map_right, ← List.map_drop, pendingRows,
    pendingRows, List.zipIdx_map, List.filterMap_map]
  apply List.filterMap_congr
  rintro ⟨⟨existing, row⟩, number⟩ member
  have paired := List.mem_of_mem_drop (List.fst_mem_of_mem_zipIdx member)
  have settled := (formed.rows row (List.of_mem_zip paired).2).ofRow_settle existing
  simp [row.isPending_settle, settled]

theorem ofRows_settle (store : Store τ) (formed : draft.WellFormed) :
    Scratch.ofRows store draft.settle = Scratch.ofRows store draft := by
  rw [Scratch.ofRows_eq, Scratch.ofRows_eq, merged, merged, stageExclusive_settle store formed,
    stageFixed_settle store formed]

/-- A commit does not see which cells are in slots. -/
theorem commit_settle [Inhabited τ] (memory scratch : Memory) (store : Store τ)
    (formed : draft.WellFormed) :
    store.commit memory scratch draft.settle = store.commit memory scratch draft := by
  simp only [commit, stage, ofRows_settle store formed, draft.erasures_settle]
  rfl

end Store

/-! ## Drafts that follow one replay -/

/-- Two drafts for the same rows that answer alike, however they are read. -/
structure Draft.AnswersAlike {τ : Type} (first second : Draft τ) : Prop where
  contains : ∀ row entry, first.contains row entry = second.contains row entry
  entriesOf : ∀ row, first.entriesOf row = second.entriesOf row
  entries : first.entries = second.entries
  indices : first.indices = second.indices
  indicesWith : ∀ entry, first.indicesWith entry = second.indicesWith entry
  exclusiveInsertions : first.exclusiveInsertions = second.exclusiveInsertions
  pendingErasures : first.pendingErasures = second.pendingErasures

/-- Two drafts that show the same keys answer alike, since each reading lists them in order. -/
theorem Draft.ShowsKeys.answersAlike {τ : Type} {first second : Draft τ}
    {written erased : Finset Key} (shows : first.ShowsKeys written erased)
    (showsToo : second.ShowsKeys written erased) (sameLayout : first.layout = second.layout) :
    first.AnswersAlike second := by
  have keyOrder : ∀ left right : Key, Prod.Lex (· < ·) (· < ·) left right →
      ¬ Prod.Lex (· < ·) (· < ·) right left := by
    intro left right less greater
    rw [Prod.lex_def] at less greater
    rcases less with below | ⟨same, below⟩
    · rcases greater with above | ⟨same, _⟩
      · exact Nat.lt_asymm below above
      · exact Nat.ne_of_lt below same.symm
    · rcases greater with above | ⟨_, above⟩
      · exact Nat.ne_of_lt above same.symm
      · exact UInt64.lt_asymm below above
  constructor
  · intro row entry
    rw [Bool.eq_iff_iff, shows.contains, showsToo.contains]
  · intro row
    by_cases inside : row < first.layout.numRows
    · obtain ⟨entries, done, ascending, members⟩ := shows.entriesOf row inside
      obtain ⟨others, doneToo, ascendingToo, membersToo⟩ :=
        showsToo.entriesOf row (sameLayout ▸ inside)
      rw [done, doneToo]
      apply congrArg Except.ok
      apply eq_of_pairwise_of_mem_iff (fun _ _ => UInt64.lt_asymm) ascending ascendingToo
      intro entry
      rw [members, membersToo]
    · rw [shows.outside row (Nat.not_lt.1 inside),
        showsToo.outside row (sameLayout ▸ Nat.not_lt.1 inside), sameLayout]
  · apply eq_of_pairwise_of_mem_iff keyOrder shows.entriesAscending showsToo.entriesAscending
    intro key
    rw [shows.entries, showsToo.entries]
  · apply eq_of_pairwise_of_mem_iff (fun _ _ => Nat.lt_asymm) shows.indicesAscending
      showsToo.indicesAscending
    intro row
    rw [shows.indices, showsToo.indices]
  · intro entry
    apply eq_of_pairwise_of_mem_iff (fun _ _ => Nat.lt_asymm) (shows.indicesWithAscending entry)
      (showsToo.indicesWithAscending entry)
    intro row
    rw [shows.indicesWith, showsToo.indicesWith]
  · rw [shows.exclusiveInsertions, showsToo.exclusiveInsertions, sameLayout]
  · rw [shows.pendingErasures, showsToo.pendingErasures]

section Alike

variable {τ : Type} {before : Key → Option τ} {first second : Draft τ} {replay : Replay τ}

theorem Follows.settle_eq (follows : Follows before first replay)
    (followsToo : Follows before second replay) (sameLayout : first.layout = second.layout)
    (sameWidth : first.maxEntries = second.maxEntries) : first.settle = second.settle := by
  have sameRows : first.rows.map DraftRow.settle = second.rows.map DraftRow.settle := by
    apply List.ext_getElem?
    intro number
    rw [List.getElem?_map, List.getElem?_map, follows.formed.getElem?_rows,
      followsToo.formed.getElem?_rows, sameLayout]
    split
    next inside =>
      have otherFormed := sameWidth ▸ followsToo.formed.row number
      have settled := (follows.formed.row number).settle_eq otherFormed
        (fun entry => (follows.written number entry).trans (followsToo.written number entry).symm)
        (fun entry => (follows.pending number entry).trans (followsToo.pending number entry).symm)
      rw [Option.map_some, Option.map_some, settled]
    next => rfl
  have sameInsertions : first.exclusiveInsertions = second.exclusiveInsertions := by
    rw [follows.formed.counted, followsToo.formed.counted, ← Draft.countCells_settle first.rows,
      ← Draft.countCells_settle second.rows, sameRows, sameLayout]
  rw [Draft.settle, Draft.settle, sameLayout, sameWidth, sameRows, sameInsertions]

variable [Inhabited τ]

/-- Calls on two drafts that follow one replay report the same, and the same of them succeed: by
induction on the calls. -/
theorem Follows.callAll_eq (follows : Follows before first replay)
    (followsToo : Follows before second replay) (sameLayout : first.layout = second.layout)
    (sameWidth : first.maxEntries = second.maxEntries) (narrow : second.maxEntries ≤ maxRowLength)
    (calls : List (Change τ)) :
    (first.callAll calls).1 = (second.callAll calls).1 ∧
      first.succeeding calls = second.succeeding calls := by
  induction calls generalizing first second replay with
  | nil => exact ⟨rfl, rfl⟩
  | cons call calls ih =>
      have called := follows.call (sameWidth ▸ narrow) call
      have calledToo := followsToo.call narrow call
      rw [sameLayout, sameWidth] at called
      cases refused : call.refusal? second.layout second.maxEntries with
      | some error =>
          rw [refused] at called calledToo
          obtain ⟨outcomes, made⟩ := ih follows followsToo sameLayout sameWidth narrow
          simp only [Draft.callAll, Draft.succeeding, called, calledToo, outcomes, made,
            and_self]
      | none =>
          rw [refused] at called calledToo
          obtain ⟨next, done, shape, follows⟩ := called
          obtain ⟨nextToo, doneToo, shapeToo, followsToo⟩ := calledToo
          obtain ⟨outcomes, made⟩ := ih follows followsToo
            (shape.layout.trans (sameLayout.trans shapeToo.layout.symm))
            (shape.maxEntries.trans (sameWidth.trans shapeToo.maxEntries.symm))
            (shapeToo.maxEntries ▸ narrow)
          simp only [Draft.callAll, Draft.succeeding, done, doneToo, outcomes, made, and_self]

/-- Two drafts that differ in their slots only, and are called alike, report the same call by call,
answer alike, and leave every store that they are committed to the same, with the same outcome. -/
theorem Draft.calls_hide_numSlots {firstMemory secondMemory : Memory} {layout : Layout}
    {firstSlots secondSlots maxEntries : Nat} {firstFresh secondFresh : Draft τ}
    (firstCreated : Draft.create firstMemory layout firstSlots maxEntries = .ok firstFresh)
    (secondCreated : Draft.create secondMemory layout secondSlots maxEntries = .ok secondFresh)
    (narrow : maxEntries ≤ maxRowLength) (calls : List (Change τ)) :
    (firstFresh.callAll calls).1 = (secondFresh.callAll calls).1 ∧
    (firstFresh.callAll calls).2.AnswersAlike (secondFresh.callAll calls).2 ∧
    ∀ (memory scratch : Memory) (store : Store τ),
      store.attempt ⟨memory, scratch, (firstFresh.callAll calls).2⟩ =
        store.attempt ⟨memory, scratch, (secondFresh.callAll calls).2⟩ := by
  have firstIs := Draft.create_fresh firstCreated
  have secondIs := Draft.create_fresh secondCreated
  have sameLayout : firstFresh.layout = secondFresh.layout := firstIs.layout.trans secondIs.layout.symm
  have sameWidth : firstFresh.maxEntries = secondFresh.maxEntries :=
    firstIs.maxEntries.trans secondIs.maxEntries.symm
  have secondNarrow : secondFresh.maxEntries ≤ maxRowLength := secondIs.maxEntries ▸ narrow
  have firstStart := firstIs.follows fun _ => none
  have secondStart := secondIs.follows fun _ => none
  obtain ⟨outcomes, made⟩ :=
    firstStart.callAll_eq secondStart sameLayout sameWidth secondNarrow calls
  obtain ⟨firstShape, firstFollows⟩ := firstStart.callAll (sameWidth ▸ secondNarrow) calls
  obtain ⟨secondShape, secondFollows⟩ := secondStart.callAll secondNarrow calls
  rw [made] at firstFollows
  have lastLayout := firstShape.layout.trans (sameLayout.trans secondShape.layout.symm)
  have lastWidth := firstShape.maxEntries.trans (sameWidth.trans secondShape.maxEntries.symm)
  refine ⟨outcomes, ?_, fun memory scratch store => ?_⟩
  · have written : ∀ key, key ∈ keysWritten (secondFresh.succeeding calls) ↔
        ∃ value, (Replay.epoch (fun _ => none) (secondFresh.succeeding calls)).written key =
          some value := by
      intro key
      rw [(Replay.epoch_keys _ _ key).1, mem_keysWritten_iff]
    exact (firstFollows.showsKeys written).answersAlike (secondFollows.showsKeys written) lastLayout
  · have settled := firstFollows.settle_eq secondFollows lastLayout lastWidth
    have committed : store.commit memory scratch (firstFresh.callAll calls).2 =
        store.commit memory scratch (secondFresh.callAll calls).2 := by
      rw [← Store.commit_settle memory scratch store firstFollows.formed, settled,
        Store.commit_settle memory scratch store secondFollows.formed]
    rw [Store.attempt_eq, Store.attempt_eq, committed]

/-- One slot spills over what two slots hold, so the drafts differ; a commit does not tell them apart. -/
theorem Draft.calls_hide_numSlots_oneAndTwo :
    let memory : Memory := .ofElementBytes 8
    let layout : Layout := { exclusive := 1, ghost := 1 }
    ∃ one two, Draft.create memory layout 1 3 = .ok one ∧ Draft.create memory layout 2 3 = .ok two ∧
      (one.callAll mixedCalls).2.rows ≠ (two.callAll mixedCalls).2.rows ∧
      (one.callAll mixedCalls).1 = (two.callAll mixedCalls).1 ∧
      (one.callAll mixedCalls).2.entries = (two.callAll mixedCalls).2.entries ∧
      ∀ store : Store Nat, store.attempt ⟨memory, memory, (one.callAll mixedCalls).2⟩ =
        store.attempt ⟨memory, memory, (two.callAll mixedCalls).2⟩ := by
  intro memory layout
  let one : Draft Nat := .empty layout 1 3
  let two : Draft Nat := .empty layout 2 3
  have oneCreated : Draft.create memory layout 1 3 = .ok one := rfl
  have twoCreated : Draft.create memory layout 2 3 = .ok two := rfl
  obtain ⟨outcomes, answers, attempts⟩ :=
    Draft.calls_hide_numSlots oneCreated twoCreated (by decide) mixedCalls
  exact ⟨one, two, oneCreated, twoCreated, by decide +kernel, outcomes, answers.entries,
    attempts memory memory⟩

end Alike

end Subdomain

import Subdomain.Proofs.Sparse.Refinement

/-!
# How much room a commit needs

A merged row is no longer than its committed cells and its written cells together, and no longer than
the row width.  The first bound makes the count of a draft's insertions decide whether the exclusive
region grows, and by how much; the second keeps every row describable.  What is left for a commit to
fail on is a draft for another store, and memory.
-/

namespace Subdomain

/-- Memory refuses a length that no word can hold, and any other that it does not grant. -/
def Memory.refuses (memory : Memory) (length : Nat) : Bool :=
  decide (maxWord < length) || !memory.grants length

/-! ## Lengths of merged rows -/

theorem Cell.Merged.length_le {τ : Type} {existing slots spare merged : List (Cell τ)}
    (steps : Cell.Merged existing slots spare merged) :
    merged.length ≤ existing.length + (slots.length + spare.length) := by
  induction steps with
  | @spare existing slots _ _ cell _ _ _ ih =>
      have passedExisting := Cell.length_skip_le cell.entry existing
      have passedSlots := Cell.length_skip_le cell.entry slots
      simp only [List.length_cons]
      omega
  | @slots existing _ _ _ cell _ _ _ ih =>
      have passedExisting := Cell.length_skip_le cell.entry existing
      simp only [List.length_cons]
      omega
  | existing _ _ _ ih =>
      simp only [List.length_cons]
      omega
  | nil => exact Nat.zero_le _

namespace StagedRow

variable {τ : Type} {numSlots width : Nat} {existing : List (Cell τ)} {row : DraftRow τ}

theorem length_merged_le (existing : List (Cell τ)) (row : DraftRow τ) :
    (ofRow existing row).merged.length ≤ existing.length + row.cells.length := by
  have sorted : (Cell.sort row.spare).length = row.spare.length := (Cell.perm_sort _).length_eq
  have steps := (Cell.merged_merge existing row.slots (Cell.sort row.spare)).length_le
  rw [sorted] at steps
  rw [DraftRow.cells, List.length_append]
  exact steps

theorem length_kept_le (row : StagedRow τ) : row.kept.length ≤ row.merged.length :=
  List.length_filter_le ..

/-- A merged row has distinct entries below the row width, so it is no longer than that. -/
theorem length_merged_le_width (ascending : Cell.Ascending existing)
    (below : ∀ cell ∈ existing, cell.entry.toNat < width)
    (formed : DraftRow.WellFormed numSlots width row) :
    (ofRow existing row).merged.length ≤ width :=
  Cell.length_le_of_distinct (ascending_merged ascending formed).distinct
    (below_merged below formed)

theorem length_flatten_kept_le (pairs : List (List (Cell τ) × DraftRow τ)) :
    (Store.keptRows pairs).flatten.length ≤
      (pairs.map Prod.fst).flatten.length +
        ((pairs.map Prod.snd).flatMap DraftRow.cells).length := by
  induction pairs with
  | nil => simp [Store.keptRows]
  | cons pair pairs ih =>
      obtain ⟨cells, row⟩ := pair
      have head := (ofRow cells row).length_kept_le.trans (length_merged_le cells row)
      simp only [Store.keptRows, List.map_cons, List.flatten_cons, List.flatMap_cons,
        List.length_append] at ih ⊢
      omega

end StagedRow

namespace Store

variable {τ : Type} [Inhabited τ] {store : Store τ} {draft : Draft τ} {before : Key → Option τ}

omit [Inhabited τ] in
theorem mem_stageExclusive {staged : StagedRow τ} (member : staged ∈ store.stageExclusive draft) :
    ∃ existing ∈ store.contents, ∃ row ∈ draft.rows, staged = StagedRow.ofRow existing row := by
  obtain ⟨⟨existing, row⟩, found, rfl⟩ := List.mem_map.1 member
  have paired := List.of_mem_zip (List.mem_of_mem_take found)
  exact ⟨existing, paired.1, row, paired.2, rfl⟩

omit [Inhabited τ] in
theorem mem_stageFixed {staged : Nat × StagedRow τ} (member : staged ∈ store.stageFixed draft) :
    ∃ existing ∈ store.contents, ∃ row ∈ draft.rows, staged.2 = StagedRow.ofRow existing row := by
  rw [stageFixed, pendingRows, List.mem_filterMap] at member
  obtain ⟨⟨⟨existing, row⟩, number⟩, numbered, chosen⟩ := member
  have found : (existing, row) ∈ store.contents.zip draft.rows :=
    List.mem_of_mem_drop (List.mem_of_getElem?
      (List.mk_mem_zipIdx_iff_le_and_getElem?_sub.1 numbered).2)
  have paired := List.of_mem_zip found
  refine ⟨existing, paired.1, row, paired.2, ?_⟩
  dsimp only at chosen
  split at chosen
  · cases chosen
    rfl
  · cases chosen

/-- Every row that a commit merges is within the row width. -/
theorem Represents.length_merged_le (represents : Represents store before)
    (formed : draft.WellFormed) (sameWidth : draft.maxEntries = store.maxEntries)
    {existing : List (Cell τ)} (committed : existing ∈ store.contents) {row : DraftRow τ}
    (drafted : row ∈ draft.rows) :
    (StagedRow.ofRow existing row).merged.length ≤ store.maxEntries :=
  StagedRow.length_merged_le_width (represents.ascending existing committed)
    (represents.below existing committed) (sameWidth ▸ formed.rows row drafted)

/-- The packed exclusive rows take up no more than the old ones and the insertions together. -/
theorem Represents.packed_le (represents : Represents store before) (formed : draft.WellFormed)
    (sameLayout : draft.layout = store.layout) :
    (store.swept draft).cells.length ≤ store.exclusiveUsed + draft.exclusiveInsertions := by
  obtain ⟨exclusive, fixed, holds⟩ := represents.holds
  have drafted : draft.rows.length = store.contents.length :=
    (sameLayout ▸ formed.length).trans represents.length.symm
  have committed : store.contents.take store.layout.exclusive = exclusive := by
    rw [holds.contents, List.take_left' holds.exclusiveCount]
  let pairs := store.contents.zip draft.rows
  have bound := StagedRow.length_flatten_kept_le (pairs.take store.layout.exclusive)
  rw [List.map_take, List.map_take, List.map_fst_zip (Nat.le_of_eq drafted.symm),
    List.map_snd_zip (Nat.le_of_eq drafted), committed, holds.used] at bound
  have packed : (store.swept draft).cells =
      (keptRows (pairs.take store.layout.exclusive)).flatten := by
    simp only [swept, stageExclusive, keptRows, List.map_map]
    rfl
  rw [packed, formed.counted, Draft.countCells, sameLayout]
  exact bound

omit [Inhabited τ] in
/-- Whether the exclusive region grows is decided by the insertions alone. -/
theorem growsFor_iff {swept : Scratch τ} (roomy : store.exclusiveUsed ≤ store.exclusiveCapacity)
    (packed : swept.cells.length ≤ store.exclusiveUsed + draft.exclusiveInsertions) :
    store.growsFor draft swept = true ↔ store.exclusiveReserve < draft.exclusiveInsertions := by
  have reserve : store.exclusiveReserve = store.exclusiveCapacity - store.exclusiveUsed := rfl
  simp only [growsFor, Bool.or_eq_true, decide_eq_true_eq]
  omega

omit [Inhabited τ] in
theorem grownCapacity_eq {swept : Scratch τ}
    (packed : swept.cells.length ≤ store.exclusiveUsed + draft.exclusiveInsertions) :
    store.grownCapacity draft swept =
      store.exclusiveUsed + draft.exclusiveInsertions + store.reserveChunk := by
  rw [grownCapacity, Nat.max_eq_left packed]

/-! ## What a commit fails on -/

/-- The buffer that a commit asks for when the insertions do not fit the reserve. -/
def wantedCells (store : Store τ) (draft : Draft τ) : Nat :=
  store.exclusiveUsed + draft.exclusiveInsertions + store.reserveChunk +
    store.layout.numFixedRows * store.maxEntries

/-- The error that a commit ends in, if it ends in one. -/
def refusal? (memory : Memory) (store : Store τ) (draft : Draft τ) : Option Error :=
  if draft.layout ≠ store.layout then
    some (.layoutMismatch draft.layout.counts store.layout.counts)
  else if draft.maxEntries ≠ store.maxEntries then
    some (.invalidConfig <| s!"mutator row width {draft.maxEntries} does not match " ++
      s!"target row width {store.maxEntries}")
  else if store.exclusiveReserve < draft.exclusiveInsertions ∧
      memory.refuses (store.wantedCells draft) then
    some (.allocationFailed (min (store.wantedCells draft) maxWord))
  else none

omit [Inhabited τ] in
/-- A commit that ends in an error blames the draft or the memory, never a merged row. -/
theorem refusal?_eq_some {memory : Memory} {error : Error}
    (refused : store.refusal? memory draft = some error) :
    (∃ drafted committed, error = .layoutMismatch drafted committed) ∨
      (∃ reason, error = .invalidConfig reason) ∨ ∃ length, error = .allocationFailed length := by
  rw [refusal?] at refused
  split at refused
  · cases refused
    exact .inl ⟨_, _, rfl⟩
  split at refused
  · cases refused
    exact .inr (.inl ⟨_, rfl⟩)
  split at refused
  · cases refused
    exact .inr (.inr ⟨_, rfl⟩)
  · cases refused

theorem grow_refused {memory : Memory} {capacity length : Nat}
    (total : capacity + (store.cells.drop store.exclusiveCapacity).length = length)
    (refused : memory.refuses length = true) :
    store.grow memory capacity = .error (.allocationFailed (min length maxWord)) := by
  rw [grow, total]
  by_cases long : maxWord < length
  · rw [if_pos long, Nat.min_eq_right (Nat.le_of_lt long)]
    rfl
  · rw [if_neg long, Nat.min_eq_left (Nat.not_lt.1 long)]
    simp only [Memory.refuses, long, decide_false, Bool.false_or, Bool.not_eq_true'] at refused
    simp only [Memory.allocate, refused, Bool.false_eq_true, if_false]
    rfl

theorem grow_granted {memory : Memory} {capacity length : Nat}
    (total : capacity + (store.cells.drop store.exclusiveCapacity).length = length)
    (granted : memory.refuses length = false) :
    ∃ grown, store.grow memory capacity = .ok grown := by
  simp only [Memory.refuses, Bool.or_eq_false_iff, decide_eq_false_iff_not,
    Bool.not_eq_false'] at granted
  rw [grow, total, if_neg granted.1, Memory.allocate, if_pos granted.2]
  exact ⟨_, rfl⟩

/-- The rows of a draft for the store are staged: every merged row is within the row width. -/
theorem Represents.stage_eq_ok (represents : Represents store before) {scratch : Memory}
    (formed : draft.WellFormed) (sameLayout : draft.layout = store.layout)
    (sameWidth : draft.maxEntries = store.maxEntries)
    (granted : scratch.grants (store.exclusiveUsed + draft.exclusiveInsertions) = true) :
    store.stage scratch draft =
      .ok (store.swept draft, ((store.staged draft).flatMap StagedRow.dropped).length) := by
  have describable : (store.stageExclusive draft).find? (fun row =>
      decide (maxRowLength < row.merged.length)) = none := by
    refine List.find?_eq_none.2 fun staged member => ?_
    obtain ⟨existing, committed, row, drafted, rfl⟩ := mem_stageExclusive member
    have short := represents.length_merged_le formed sameWidth committed drafted
    simp only [decide_eq_true_eq, Nat.not_lt]
    exact short.trans represents.narrow
  have fitting : (store.stageFixed draft).find? (fun staged =>
      decide (store.maxEntries < staged.2.kept.length)) = none := by
    refine List.find?_eq_none.2 fun staged member => ?_
    obtain ⟨existing, committed, row, drafted, same⟩ := mem_stageFixed member
    have short := represents.length_merged_le formed sameWidth committed drafted
    simp only [decide_eq_true_eq, Nat.not_lt, same]
    exact (StagedRow.length_kept_le _).trans short
  rw [stage_eq scratch (represents.mergesTidily formed), if_neg (not_not.2 sameLayout),
    if_neg (not_not.2 sameWidth), if_neg (not_not.2 granted), describable, fitting]

/-- The buffer is large enough or enlarged, unless the insertions do not fit the reserve and the memory
refuses the larger buffer. -/
theorem Represents.enlarge (represents : Represents store before) (memory : Memory)
    (formed : draft.WellFormed) (sameLayout : draft.layout = store.layout) :
    if store.exclusiveReserve < draft.exclusiveInsertions ∧
        memory.refuses (store.wantedCells draft) = true then
      store.enlarge memory draft (store.swept draft) =
        .error (.allocationFailed (min (store.wantedCells draft) maxWord))
    else ∃ target, store.enlarge memory draft (store.swept draft) = .ok target := by
  have packed := represents.packed_le formed sameLayout
  obtain ⟨_, _, holds⟩ := represents.holds
  have growth := growsFor_iff holds.roomy packed
  have total : store.grownCapacity draft (store.swept draft) +
      (store.cells.drop store.exclusiveCapacity).length = store.wantedCells draft := by
    rw [grownCapacity_eq packed, List.length_drop, holds.length_cells, Nat.add_sub_cancel_left,
      wantedCells]
  split
  next refused =>
    rw [Store.enlarge, if_pos (growth.2 refused.1), grow_refused total refused.2]
  next accepted =>
    rw [Store.enlarge]
    split
    next grows =>
      have granted : memory.refuses (store.wantedCells draft) = false :=
        Bool.eq_false_iff.2 fun refused => accepted ⟨growth.1 grows, refused⟩
      exact grow_granted total granted
    next => exact ⟨store, rfl⟩

/-- A draft that follows some changes is committed unless it is for another store or the memory
refuses the larger buffer. -/
theorem Represents.commit (represents : Represents store before) (memory : Memory)
    {scratch : Memory} (formed : draft.maxEntries = store.maxEntries → draft.WellFormed)
    (granted : scratch.grants (store.exclusiveUsed + draft.exclusiveInsertions) = true) :
    match store.refusal? memory draft with
    | some error => store.commit memory scratch draft = .error error
    | none => ∃ next stats, store.commit memory scratch draft = .ok (next, stats) := by
  have tidily := fun sameLayout sameWidth =>
    represents.mergesTidily (formed sameWidth) sameLayout sameWidth
  rw [refusal?, Store.commit]
  by_cases otherLayout : draft.layout ≠ store.layout
  · rw [if_pos otherLayout, stage_eq scratch tidily, if_pos otherLayout]
    rfl
  by_cases otherWidth : draft.maxEntries ≠ store.maxEntries
  · rw [if_neg otherLayout, if_pos otherWidth, stage_eq scratch tidily, if_neg otherLayout,
      if_pos otherWidth]
    rfl
  have sameLayout := not_not.1 otherLayout
  have sameWidth := not_not.1 otherWidth
  have staged := represents.stage_eq_ok (formed sameWidth) sameLayout sameWidth granted
  have enlarged := represents.enlarge memory (formed sameWidth) sameLayout
  rw [if_neg otherLayout, if_neg otherWidth, staged, ok_bind]
  dsimp only
  split at enlarged
  next refused =>
    rw [if_pos refused, enlarged]
    rfl
  next accepted =>
    obtain ⟨target, grown⟩ := enlarged
    rw [if_neg accepted, grown]
    exact ⟨_, _, rfl⟩

end Store

end Subdomain

import Mathlib.Algebra.BigOperators.Group.List.Basic
import Subdomain.Proofs.Sparse.Attempts
import Subdomain.Proofs.Sparse.Offset

/-!
# The layout of a store

Every store that comes about is laid out by one rule, of which this module draws the consequences: where
each row lies, that the regions make up the buffer, that what no row covers is vacant, that the store
passes its own check, and that its extents fit the words that describe them.
-/

namespace Subdomain

namespace Extent

/-- Whether a position belongs to the row. -/
def Covers (extent : Extent) (position : Nat) : Prop :=
  extent.start ≤ position ∧ position < extent.stop

theorem getElem?_consecutive (start : Nat) (counts : List Nat) (position : Nat) :
    (consecutive start counts)[position]? =
      counts[position]?.map fun count => ⟨start + (counts.take position).sum, count⟩ := by
  induction counts generalizing start position with
  | nil => rfl
  | cons count counts ih =>
      cases position with
      | zero => simp [consecutive]
      | succ position =>
          simp only [consecutive, List.getElem?_cons_succ, ih, List.take_succ_cons, List.sum_cons,
            Nat.add_assoc]

/-- Consecutive rows leave no position out. -/
theorem covers_consecutive (start : Nat) {counts : List Nat} {position : Nat}
    (inside : position < counts.sum) :
    ∃ extent ∈ consecutive start counts, extent.Covers (start + position) := by
  induction counts generalizing start position with
  | nil => simp at inside
  | cons count counts ih =>
      rw [List.sum_cons] at inside
      by_cases here : position < count
      · refine ⟨⟨start, count⟩, List.mem_cons_self, ?_⟩
        simp only [Covers, stop]
        omega
      · have later : position - count < counts.sum := by omega
        obtain ⟨extent, member, covers⟩ := ih (start + count) later
        have place : start + count + (position - count) = start + position := by omega
        exact ⟨extent, List.mem_cons_of_mem _ member, place ▸ covers⟩

end Extent

section Padding

variable {τ : Type} [Inhabited τ]

theorem vacant_of_padded {width position : Nat} {cells : List (Cell τ)} {cell : Cell τ}
    (found : (padded width cells)[position]? = some cell) :
    position < cells.length ∨ cell = Cell.vacant := by
  rw [padded, List.getElem?_append] at found
  split at found
  · next inside => exact .inl inside
  · exact .inr (List.eq_of_mem_replicate (List.mem_of_getElem? found))

/-- Of rows padded to one width, only positions that belong to a row hold anything. -/
theorem vacant_of_strided (start : Nat) {width position : Nat} {rows : List (List (Cell τ))}
    {cell : Cell τ} (fits : ∀ row ∈ rows, row.length ≤ width)
    (found : (rows.map (padded width)).flatten[position]? = some cell) :
    (∃ extent ∈ Extent.strided start width (rows.map List.length),
      extent.Covers (start + position)) ∨ cell = Cell.vacant := by
  induction rows generalizing start position with
  | nil => simp at found
  | cons row rows ih =>
      have wide := length_padded (fits row List.mem_cons_self)
      rw [List.map_cons, List.flatten_cons, List.getElem?_append, wide] at found
      split at found
      · rcases vacant_of_padded found with inside | vacant
        · refine .inl ⟨⟨start, row.length⟩, List.mem_cons_self, ?_⟩
          simp only [Extent.Covers, Extent.stop]
          omega
        · exact .inr vacant
      · next beyond =>
        have rest := ih (start + width)
          (fun other member => fits other (List.mem_cons_of_mem _ member)) found
        have place : start + width + (position - width) = start + position := by omega
        rw [place] at rest
        refine rest.imp_left fun ⟨extent, member, covers⟩ => ?_
        exact ⟨extent, List.mem_cons_of_mem _ member, covers⟩

end Padding

/-- A fold over numbered values whose every step takes the value that belongs to its number to the
next takes the first to the last. -/
theorem foldlM_zipIdx {ε α β : Type} (step : β → α × Nat → Except ε β) (reached : Nat → β)
    (values : List α) (start : Nat)
    (each : ∀ position value, values[position]? = some value →
      step (reached (start + position)) (value, start + position) =
        .ok (reached (start + position + 1))) :
    (values.zipIdx start).foldlM step (reached start) = .ok (reached (start + values.length)) := by
  induction values generalizing start with
  | nil => rfl
  | cons value values ih =>
      have head : step (reached start) (value, start) = .ok (reached (start + 1)) := each 0 value rfl
      rw [List.zipIdx_cons, List.foldlM_cons, head]
      have rest := ih (start + 1) fun position other found => by
        have later := each (position + 1) other (by rwa [List.getElem?_cons_succ])
        rwa [Nat.add_comm position 1, ← Nat.add_assoc] at later
      rw [List.length_cons, Nat.add_comm values.length 1, ← Nat.add_assoc]
      exact rest

namespace Store

variable {τ : Type} [Inhabited τ]

/-- The layout of a store: where its rows lie and what they hold, and that nothing else is held. -/
structure Sound (store : Store τ) : Prop where
  described : store.extents.length = store.layout.numRows
  /-- The first exclusive row starts at the front of the buffer. -/
  first : 0 < store.layout.exclusive → (store.extents[0]?).map Extent.start = some 0
  /-- Every other exclusive row starts where the one before it ends. -/
  next : ∀ row, row + 1 < store.layout.exclusive →
    (store.extents[row + 1]?).map Extent.start = (store.extents[row]?).map Extent.stop
  /-- The last exclusive row ends where the used part of the region does. -/
  last : ∀ row, row + 1 = store.layout.exclusive →
    (store.extents[row]?).map Extent.stop = some store.exclusiveUsed
  unused : store.layout.exclusive = 0 → store.exclusiveUsed = 0
  roomy : store.exclusiveUsed ≤ store.exclusiveCapacity
  /-- Every shared and ghost row lies at its fixed place and fits its room. -/
  fixed : ∀ position < store.layout.numFixedRows, ∃ count ≤ store.maxEntries,
    store.extents[store.layout.exclusive + position]? =
      some ⟨store.exclusiveCapacity + position * store.maxEntries, count⟩
  length : store.cells.length =
    store.exclusiveCapacity + store.layout.numFixedRows * store.maxEntries
  regions : store.region .exclusive ++ store.region .shared ++ store.region .ghost = store.cells
  rows : ∀ number < store.layout.numRows, ∃ cells, store.row number = .ok cells ∧
    Cell.Ascending cells ∧ ∀ cell ∈ cells, cell.entry.toNat < store.maxEntries
  /-- What no row covers is vacant. -/
  vacant : ∀ position cell, store.cells[position]? = some cell →
    (∀ extent ∈ store.extents, ¬ extent.Covers position) → cell = Cell.vacant
  checked : store.checkInvariants = .ok ()
  /-- Packed into one word each, the extents lose nothing. -/
  packed : ∀ extent ∈ store.extents,
    extent.pack.start.toNat = extent.start ∧ extent.pack.count.toNat = extent.count

variable {store : Store τ} {exclusive fixed : List (List (Cell τ))} {contents : Key → Option τ}

/-- The extent of an exclusive row. -/
theorem Holds.extent_exclusive (holds : Holds store exclusive fixed) {row : Nat}
    (inside : row < store.layout.exclusive) :
    ∃ cells, exclusive[row]? = some cells ∧
      store.extents[row]? = some ⟨((exclusive.map List.length).take row).sum, cells.length⟩ := by
  have held : row < exclusive.length := holds.exclusiveCount ▸ inside
  refine ⟨exclusive[row], List.getElem?_eq_getElem held, ?_⟩
  have front : row < (Extent.consecutive 0 (exclusive.map List.length)).length := by
    simpa using held
  rw [holds.extents_eq, List.getElem?_append_left front, Extent.getElem?_consecutive,
    List.getElem?_map, List.getElem?_eq_getElem held, Option.map_some, Option.map_some,
    Nat.zero_add]

/-- Where an exclusive row ends. -/
theorem Holds.stop_exclusive (holds : Holds store exclusive fixed) {row : Nat}
    (inside : row < store.layout.exclusive) :
    (store.extents[row]?).map Extent.stop =
      some ((exclusive.map List.length).take (row + 1)).sum := by
  obtain ⟨cells, found, extent⟩ := holds.extent_exclusive inside
  obtain ⟨held, rfl⟩ := List.getElem?_eq_some_iff.1 found
  have counted : row < (exclusive.map List.length).length := by rwa [List.length_map]
  rw [extent, List.sum_take_succ _ row counted, List.getElem_map]
  rfl

/-- The exclusive rows together are what is used of their region. -/
theorem Holds.sum_exclusive (holds : Holds store exclusive fixed) :
    (exclusive.map List.length).sum = store.exclusiveUsed := by
  rw [← List.length_flatten, holds.used]

theorem Holds.length_extents (holds : Holds store exclusive fixed) :
    store.extents.length = store.layout.exclusive + store.layout.numFixedRows := by
  rw [holds.extents_eq, List.length_append, Extent.length_consecutive, Extent.length_strided,
    List.length_map, List.length_map, holds.exclusiveCount, holds.count]

/-- The extent of a shared or ghost row, and the row. -/
theorem Holds.extent_fixed (holds : Holds store exclusive fixed) {position : Nat}
    (inside : position < store.layout.numFixedRows) :
    ∃ cells, fixed[position]? = some cells ∧ cells.length ≤ store.maxEntries ∧
      store.extents[store.layout.exclusive + position]? =
        some ⟨store.exclusiveCapacity + position * store.maxEntries, cells.length⟩ := by
  have held : position < fixed.length := holds.count ▸ inside
  have found := List.getElem?_eq_getElem held
  exact ⟨fixed[position], found, holds.fits _ (List.getElem_mem held), holds.extent found⟩

/-- Every row ends inside the buffer. -/
theorem Holds.stop_le (holds : Holds store exclusive fixed) {extent : Extent}
    (member : extent ∈ store.extents) : extent.stop ≤ store.cells.length := by
  have length := holds.length_cells
  obtain ⟨row, inside, located⟩ := List.mem_iff_getElem.1 member
  have found : store.extents[row]? = some extent := by
    rw [List.getElem?_eq_getElem inside, located]
  by_cases exclusiveRow : row < store.layout.exclusive
  · have stop := holds.stop_exclusive exclusiveRow
    rw [found, Option.map_some, Option.some.injEq] at stop
    have rest := List.sum_take_add_sum_drop (exclusive.map List.length) (row + 1)
    have used := holds.sum_exclusive
    have roomy := holds.roomy
    omega
  · have held : row - store.layout.exclusive < store.layout.numFixedRows := by
      have described := holds.length_extents
      omega
    obtain ⟨cells, _, fits, extentAt⟩ := holds.extent_fixed held
    rw [Nat.add_sub_cancel' (Nat.not_lt.1 exclusiveRow), found, Option.some.injEq] at extentAt
    have room : (row - store.layout.exclusive + 1) * store.maxEntries ≤
        store.layout.numFixedRows * store.maxEntries := Nat.mul_le_mul_right _ held
    rw [Nat.succ_mul] at room
    rw [extentAt, Extent.stop, length]
    dsimp only
    omega

theorem Holds.regions (holds : Holds store exclusive fixed) :
    store.region .exclusive ++ store.region .shared ++ store.region .ghost = store.cells := by
  have length := holds.length_cells
  have ghost : store.region .ghost =
      store.cells.drop (store.exclusiveCapacity + store.layout.shared * store.maxEntries) := by
    simp only [region, regionInterval]
    exact List.take_of_length_le (by rw [List.length_drop])
  have shared : store.region .shared =
      (store.cells.drop store.exclusiveCapacity).take
        (store.layout.shared * store.maxEntries) := by
    simp only [region, regionInterval, Nat.add_sub_cancel_left]
  have front : store.region .exclusive = store.cells.take store.exclusiveCapacity := by
    simp only [region, regionInterval, Nat.sub_zero, List.drop_zero]
  rw [ghost, shared, front, List.append_assoc, ← List.drop_drop, List.take_append_drop,
    List.take_append_drop]

/-- A position that holds something belongs to a row. -/
theorem Holds.vacant (holds : Holds store exclusive fixed) {position : Nat} {cell : Cell τ}
    (found : store.cells[position]? = some cell)
    (uncovered : ∀ extent ∈ store.extents, ¬ extent.Covers position) : cell = Cell.vacant := by
  have wide := holds.length_padded
  rw [holds.extents_eq] at uncovered
  rw [holds.cells, List.getElem?_append, wide] at found
  split at found
  · rcases vacant_of_padded found with inside | vacant
    · rw [List.length_flatten] at inside
      obtain ⟨extent, member, covers⟩ := Extent.covers_consecutive 0 inside
      rw [Nat.zero_add] at covers
      exact absurd covers (uncovered extent (List.mem_append_left _ member))
    · exact vacant
  · next beyond =>
    rcases vacant_of_strided store.exclusiveCapacity holds.fits found with covered | vacant
    · obtain ⟨extent, member, covers⟩ := covered
      rw [Nat.add_sub_cancel' (Nat.not_lt.1 beyond)] at covers
      exact absurd covers (uncovered extent (List.mem_append_right _ member))
    · exact vacant

/-- The rows of a store that represents a map are within the row width. -/
theorem Represents.count_le (represents : Represents store contents) {extent : Extent}
    (member : extent ∈ store.extents) : extent.count ≤ store.maxEntries := by
  obtain ⟨_, _, holds⟩ := represents.holds
  have counted : extent.count ∈ store.contents.map List.length :=
    holds.counts ▸ List.mem_map_of_mem member
  obtain ⟨cells, held, same⟩ := List.mem_map.1 counted
  rw [← same]
  exact Cell.length_le_of_distinct (represents.ascending cells held).distinct
    (represents.below cells held)

/-- Where the exclusive row of a number is expected to begin: behind those before it. -/
def reached (exclusive : List (List (Cell τ))) (row : Nat) : Nat :=
  ((exclusive.map List.length).take row).sum

omit [Inhabited τ] in
/-- Behind the last exclusive row, all of them have been passed. -/
theorem reached_eq_sum {row : Nat} (past : exclusive.length ≤ row) :
    reached exclusive row = (exclusive.map List.length).sum := by
  rw [reached, List.take_of_length_le (by rwa [List.length_map])]

/-- Every row lies in the buffer, ascends, and has only cells with content. -/
theorem Represents.accepted (represents : Represents store contents) {extent : Extent}
    (member : extent ∈ store.extents) :
    extent.stop ≤ store.cells.length ∧ Cell.Ascending (extent.slice store.cells) ∧
      (extent.slice store.cells).any (·.entry == vacantEntry) = false := by
  obtain ⟨_, _, holds⟩ := represents.holds
  have held : extent.slice store.cells ∈ store.contents := List.mem_map_of_mem member
  refine ⟨holds.stop_le member, represents.ascending _ held, List.any_eq_false.2 ?_⟩
  intro cell listed
  rw [Bool.not_eq_true]
  exact represents.isVacant_eq_false (represents.below _ held cell listed)

/-- The check of a row finds what it expects, and expects the next row behind it if it is exclusive. -/
theorem Represents.checkInvariantsOf_eq_ok (represents : Represents store contents)
    (holds : Holds store exclusive fixed) {row : Nat} {extent : Extent}
    (found : store.extents[row]? = some extent) :
    store.checkInvariantsOf (reached exclusive row) row extent =
      .ok (reached exclusive (row + 1)) := by
  obtain ⟨inside, ascending, occupied⟩ := represents.accepted (List.mem_of_getElem? found)
  by_cases exclusiveRow : row < store.layout.exclusive
  · obtain ⟨cells, _, extentAt⟩ := holds.extent_exclusive exclusiveRow
    have stop := holds.stop_exclusive exclusiveRow
    rw [found, Option.some.injEq] at extentAt
    rw [found, Option.map_some, Option.some.injEq] at stop
    have start : extent.start = reached exclusive row := by
      rw [extentAt]
      rfl
    have next : reached exclusive (row + 1) = extent.stop := stop.symm
    simp only [checkInvariantsOf, exclusiveRow, start, ne_eq, not_true, if_false, if_true,
      Nat.not_lt.2 inside, ascending, occupied, Bool.false_eq_true, or_self, next]
    rfl
  · have past : exclusive.length ≤ row := holds.exclusiveCount ▸ Nat.not_lt.1 exclusiveRow
    have held : row - store.layout.exclusive < store.layout.numFixedRows := by
      have described := holds.length_extents
      have bound := (List.getElem?_eq_some_iff.1 found).1
      omega
    obtain ⟨cells, _, fits, extentAt⟩ := holds.extent_fixed held
    rw [Nat.add_sub_cancel' (Nat.not_lt.1 exclusiveRow), found, Option.some.injEq] at extentAt
    have start : extent.start =
        store.exclusiveCapacity + (row - store.layout.exclusive) * store.maxEntries := by
      rw [extentAt]
    have count : extent.count = cells.length := by rw [extentAt]
    have next : reached exclusive (row + 1) = reached exclusive row := by
      rw [reached_eq_sum past, reached_eq_sum (Nat.le_succ_of_le past)]
    simp only [checkInvariantsOf, exclusiveRow, start, count, ne_eq, not_true, if_false,
      Nat.not_lt.2 fits, Nat.not_lt.2 inside, ascending, occupied, Bool.false_eq_true, or_self,
      next]
    rfl

/-- A store that represents a map passes its own check: by the rows in turn, with the sum of the
exclusive rows so far as the position that is expected next. -/
theorem Represents.checked (represents : Represents store contents) :
    store.checkInvariants = .ok () := by
  obtain ⟨exclusive, fixed, holds⟩ := represents.holds
  have all : reached exclusive (0 + store.extents.length) = store.exclusiveUsed := by
    rw [reached_eq_sum, holds.sum_exclusive]
    rw [holds.exclusiveCount, holds.length_extents]
    omega
  have folded := foldlM_zipIdx
    (fun expected located => store.checkInvariantsOf expected located.2 located.1)
    (reached exclusive) store.extents 0 fun row extent found => by
      simpa using represents.checkInvariantsOf_eq_ok holds found
  have start : reached exclusive 0 = 0 := rfl
  rw [all, start] at folded
  have fits : ¬ (store.exclusiveUsed ≠ store.exclusiveUsed ∨
      store.exclusiveCapacity < store.exclusiveUsed) := by
    have roomy := holds.roomy
    omega
  rw [checkInvariants]
  exact bind_eq_ok.2 ⟨_, folded, if_neg fits⟩

/-- Whatever commits were attempted and however they ended, the store is laid out by the rule and passes
its own check. -/
theorem attemptAll_sound {memory : Memory} {layout : Layout} {maxEntries reserveChunk : Nat}
    {first : Store τ} (created : Store.create memory layout maxEntries reserveChunk = .ok first)
    {attempts : List (Attempt τ)} (drafted : ∀ attempt ∈ attempts, attempt.draft.Reachable) :
    (first.attemptAll attempts).2.Sound := by
  have reachable : (first.attemptAll attempts).2.Reachable :=
    ⟨memory, layout, maxEntries, reserveChunk, first, attempts, created, drafted, rfl⟩
  obtain ⟨contents, represents⟩ := reachable.represents
  obtain ⟨exclusive, fixed, holds⟩ := represents.holds
  exact {
    described := holds.length_extents.trans (by
      simp only [Layout.numFixedRows, Layout.numRows]
      omega)
    first := fun some => by
      obtain ⟨cells, _, extent⟩ := holds.extent_exclusive some
      rw [extent]
      rfl
    next := fun row inside => by
      obtain ⟨cells, _, extent⟩ := holds.extent_exclusive inside
      rw [extent, holds.stop_exclusive (Nat.lt_of_succ_lt inside)]
      rfl
    last := fun row isLast => by
      have inside : row < (first.attemptAll attempts).2.layout.exclusive :=
        isLast ▸ Nat.lt_succ_self row
      rw [holds.stop_exclusive inside, List.take_of_length_le, holds.sum_exclusive]
      rw [List.length_map, holds.exclusiveCount, isLast]
    unused := fun none => by
      have empty : exclusive = [] := List.eq_nil_of_length_eq_zero (holds.exclusiveCount.trans none)
      rw [← holds.used, empty]
      rfl
    roomy := holds.roomy
    fixed := fun position inside => by
      obtain ⟨cells, _, fits, extent⟩ := holds.extent_fixed inside
      exact ⟨cells.length, fits, extent⟩
    length := holds.length_cells
    regions := holds.regions
    rows := fun number inside =>
      ⟨_, row_eq_ok inside, represents.ascending_cellsOf number, represents.below_cellsOf number⟩
    vacant := fun position cell => holds.vacant
    checked := represents.checked
    packed := fun extent member => by
      have stop := holds.stop_le member
      have count := represents.count_le member
      rw [Extent.stop] at stop
      have width : maxRowLength = 65535 := rfl
      have narrow := represents.narrow
      have addressable := represents.addressable
      rw [maxElements] at addressable
      exact Extent.toNat_pack (by omega) (by omega) }

theorem attemptAll_sound_twoAttempts : fullStore.Sound := by
  have sound := attemptAll_sound create_emptyStore reachable_twoAttempts
  rwa [attemptAll_twoAttempts] at sound

end Store

end Subdomain

import Subdomain.Proofs.Outcome
import Subdomain.Proofs.Sparse.Row
import Subdomain.Sparse.Draft

/-!
# Pending changes as finite maps

What a row of a draft holds, whichever of its two storages a cell is in.  The invariant of a row is
that an entry is in one place at most, and that nothing spills over before the slots are full.
-/

namespace Subdomain

namespace DraftRow

variable {τ : Type}

/-- The value last written at an entry, erased since or not. -/
def written? (row : DraftRow τ) (entry : UInt64) : Option τ := Cell.value? row.cells entry

/-- A row as it comes about by writing and erasing: its slots ascend and are counted, no entry is in
two places, and cells spill over only once the slots are full. -/
structure WellFormed (numSlots width : Nat) (row : DraftRow τ) : Prop where
  ascending : Cell.Ascending row.slots
  counted : row.used = row.slots.length
  countable : row.used ≤ maxRowLength
  distinct : Cell.Distinct row.spare
  apart : ∀ cell ∈ row.spare, Cell.value? row.slots cell.entry = none
  fits : row.slots.length ≤ numSlots
  full : row.spare ≠ [] → row.slots.length = numSlots
  below : ∀ cell ∈ row.cells, cell.entry.toNat < width

theorem wellFormed_empty (numSlots width : Nat) : WellFormed numSlots width ({} : DraftRow τ) where
  ascending := .nil
  counted := rfl
  countable := Nat.zero_le _
  distinct := .nil
  apart := by simp
  fits := Nat.zero_le _
  full := by simp
  below := by simp [cells]

theorem written?_empty (entry : UInt64) : ({} : DraftRow τ).written? entry = none := rfl

/-- No entry is both in a slot and spilled over, and none is in either place twice. -/
theorem WellFormed.distinct_cells {numSlots width : Nat} {row : DraftRow τ}
    (formed : WellFormed numSlots width row) : Cell.Distinct row.cells := by
  refine List.pairwise_append.2 ⟨formed.ascending.distinct, formed.distinct, ?_⟩
  intro slotted inSlots spilled inSpare same
  exact Cell.value?_eq_none_iff.1 (formed.apart spilled inSpare) slotted inSlots same

/-- An entry that the slots do not hold is free to be put there as long as a slot is free. -/
theorem WellFormed.slots_length_lt {numSlots width : Nat} {row : DraftRow τ}
    (formed : WellFormed numSlots width row) {entry : UInt64} (inside : entry.toNat < width)
    (absent : Cell.value? row.slots entry = none) (value : τ) : row.slots.length < width := by
  have distinct : Cell.Distinct (⟨entry, value⟩ :: row.slots) :=
    Cell.distinct_cons formed.ascending.distinct absent
  refine Cell.length_le_of_distinct distinct fun cell member => ?_
  cases List.mem_cons.1 member with
  | inl equal => exact equal ▸ inside
  | inr member => exact formed.below cell (List.mem_append_left _ member)

/-- Nothing has spilled over while a slot is free. -/
theorem WellFormed.spare_eq_nil {numSlots width : Nat} {row : DraftRow τ}
    (formed : WellFormed numSlots width row) (free : row.used < numSlots) : row.spare = [] := by
  by_contra spilled
  exact Nat.ne_of_lt free (formed.counted.trans (formed.full spilled))

/-- While a slot is free, an entry without a slot was not written. -/
theorem WellFormed.unwritten_of_free {numSlots width : Nat} {row : DraftRow τ}
    (formed : WellFormed numSlots width row) {entry : UInt64}
    (absent : Cell.value? row.slots entry = none) (free : row.used < numSlots) :
    row.written? entry = none := by
  rw [written?, cells, formed.spare_eq_nil free, List.append_nil, absent]

/-- The slots are filled before anything spills over. -/
theorem WellFormed.used_eq {numSlots width : Nat} {row : DraftRow τ}
    (formed : WellFormed numSlots width row) : row.used = min numSlots row.cells.length := by
  rw [formed.counted, cells, List.length_append]
  by_cases spilled : row.spare = []
  · rw [spilled, List.length_nil, Nat.add_zero, Nat.min_eq_right formed.fits]
  · rw [formed.full spilled, Nat.min_eq_left (Nat.le_add_right ..)]

/-- The entries below a width, of cells with the same entries. -/
theorem below_of_entries {first second : List (Cell τ)} {width : Nat}
    (entries : first.map Cell.entry = second.map Cell.entry)
    (below : ∀ cell ∈ second, cell.entry.toNat < width) :
    ∀ cell ∈ first, cell.entry.toNat < width := by
  intro cell member
  have listed : cell.entry ∈ second.map Cell.entry := entries ▸ List.mem_map_of_mem member
  obtain ⟨other, found, same⟩ := List.mem_map.1 listed
  exact same ▸ below other found

/-- Whether a write finds room: its entry has a slot, no slot is free, or one more can be counted. -/
def HasRoom (numSlots : Nat) (entry : UInt64) (row : DraftRow τ) : Prop :=
  Cell.value? row.slots entry = none → row.used < numSlots → row.used < maxRowLength

variable [Inhabited τ]

/-- A row that can be described has room for every entry below its width. -/
theorem WellFormed.hasRoom {numSlots width : Nat} {row : DraftRow τ}
    (formed : WellFormed numSlots width row) {entry : UInt64} (inside : entry.toNat < width)
    (narrow : width ≤ maxRowLength) : row.HasRoom numSlots entry := by
  intro absent _
  rw [formed.counted]
  exact Nat.lt_of_lt_of_le (formed.slots_length_lt inside absent default) narrow

/-- What a write leaves behind: the new value at its entry, every other value as before, and no
erasure pending at the entry. -/
structure Upserted (numSlots width : Nat) (entry : UInt64) (value : τ) (before after : DraftRow τ) :
    Prop where
  formed : WellFormed numSlots width after
  written? : ∀ other,
    after.written? other = if entry = other then some value else before.written? other
  erased : after.erased = before.erased.filter (· != entry)

/-- A write may add a cell to its row. -/
def Adds (before after : DraftRow τ) (added : Bool) : Prop :=
  after.cells.length = if added then before.cells.length + 1 else before.cells.length

section Upsert

variable {numSlots width : Nat} {row : DraftRow τ} {entry : UInt64} {change : τ → τ} {value : τ}

/-- An entry in a slot is changed there. -/
theorem upsert_slotted (formed : WellFormed numSlots width row)
    (found : Cell.value? row.slots entry = some value) :
    ∃ changed, row.upsert numSlots entry change = .ok (change value, changed, false) ∧
      Adds row changed false ∧ Upserted numSlots width entry (change value) row changed := by
  obtain ⟨slots, modified, entries, values⟩ :=
    Cell.modify?_eq_some change found
  rw [← Cell.modifyAscending?_eq formed.ascending] at modified
  have same : slots.length = row.slots.length := by simpa using congrArg List.length entries
  refine ⟨{ row with erased := row.erased.filter (· != entry), slots }, ?_, ?_, ?_, ?_, rfl⟩
  · simp only [upsert, modified]
  · simp [Adds, cells, same]
  · exact {
      ascending := Cell.ascending_of_entries entries formed.ascending
      counted := formed.counted.trans same.symm
      countable := formed.countable
      distinct := formed.distinct
      apart := fun cell member =>
        Cell.value?_eq_none_of_entries entries (formed.apart cell member)
      fits := same ▸ formed.fits
      full := fun spilled => same.trans (formed.full spilled)
      below := below_of_entries (by simp [cells, entries]) formed.below }
  · intro other
    simp only [DraftRow.written?, cells, Cell.value?_append, values]
    split <;> simp

omit [Inhabited τ] in
/-- The search of the slots finds nothing. -/
theorem WellFormed.search_eq_none (formed : WellFormed numSlots width row)
    (absent : Cell.value? row.slots entry = none) (change : τ → τ) :
    Cell.modifyAscending? entry change row.slots = none :=
  (Cell.modifyAscending?_eq formed.ascending entry change).trans (Cell.modify?_eq_none absent)

/-- A new entry goes into a free slot that can be counted. -/
theorem upsert_placed (change : τ → τ) (formed : WellFormed numSlots width row)
    (inside : entry.toNat < width) (absent : Cell.value? row.slots entry = none)
    (free : row.used < numSlots) (short : row.used < maxRowLength) :
    row.written? entry = none ∧
    ∃ changed, row.upsert numSlots entry change = .ok (change default, changed, true) ∧
      Adds row changed true ∧ Upserted numSlots width entry (change default) row changed := by
  have nothingSpilled : row.spare = [] := formed.spare_eq_nil free
  let fresh : Cell τ := ⟨entry, change default⟩
  have placed : (Cell.place fresh row.slots).Perm (fresh :: row.slots) := Cell.perm_place ..
  refine ⟨formed.unwritten_of_free absent free, { row with
    erased := row.erased.filter (· != entry), slots := Cell.place fresh row.slots,
    used := row.used + 1 }, ?_, ?_, ?_, ?_, rfl⟩
  · simp only [upsert, formed.search_eq_none absent, if_pos free, if_pos short]
    rfl
  · simp [Adds, cells, nothingSpilled, placed.length_eq]
  · exact {
      ascending := Cell.ascending_place formed.ascending absent
      counted := (congrArg (· + 1) formed.counted).trans placed.length_eq.symm
      countable := short
      distinct := formed.distinct
      apart := by simp [nothingSpilled]
      fits := by
        rw [placed.length_eq, List.length_cons, ← formed.counted]
        exact free
      full := fun spilled => absurd nothingSpilled spilled
      below := by
        intro cell member
        simp only [cells, nothingSpilled, List.append_nil, placed.mem_iff] at member
        cases List.mem_cons.1 member with
        | inl equal => exact equal ▸ inside
        | inr member => exact formed.below cell (List.mem_append_left _ member) }
  · intro other
    have values : Cell.value? (Cell.place fresh row.slots) other =
        if entry = other then some (change default) else Cell.value? row.slots other :=
      Cell.value?_place formed.ascending absent other
    simp only [DraftRow.written?, cells, Cell.value?_append, values]
    split <;> simp

/-- An entry that has spilled over is changed where it is. -/
theorem upsert_spilled (formed : WellFormed numSlots width row)
    (absent : Cell.value? row.slots entry = none)
    (found : Cell.value? row.spare entry = some value) :
    ∃ changed, row.upsert numSlots entry change = .ok (change value, changed, false) ∧
      Adds row changed false ∧ Upserted numSlots width entry (change value) row changed := by
  obtain ⟨spare, modified, entries, values⟩ := Cell.modify?_eq_some change found
  have spilled : row.spare ≠ [] := by
    intro nothing
    simp [nothing] at found
  have noFreeSlot : ¬ row.used < numSlots := by
    rw [formed.counted, formed.full spilled]
    exact Nat.lt_irrefl numSlots
  have same : spare.length = row.spare.length := by simpa using congrArg List.length entries
  refine ⟨{ row with erased := row.erased.filter (· != entry), spare }, ?_, ?_, ?_, ?_, rfl⟩
  · simp only [upsert, formed.search_eq_none absent, if_neg noFreeSlot, modified]
  · simp [Adds, cells, same]
  · exact {
      ascending := formed.ascending
      counted := formed.counted
      countable := formed.countable
      distinct := Cell.distinct_of_entries entries formed.distinct
      apart := fun cell member => by
        have listed : cell.entry ∈ row.spare.map Cell.entry :=
          entries ▸ List.mem_map_of_mem member
        obtain ⟨other, inSpare, same⟩ := List.mem_map.1 listed
        exact same ▸ formed.apart other inSpare
      fits := formed.fits
      full := fun _ => formed.full spilled
      below := below_of_entries (by simp [cells, entries]) formed.below }
  · intro other
    simp only [DraftRow.written?, cells, Cell.value?_append, values]
    by_cases equal : entry = other
    · simp [← equal, absent]
    · simp [equal]

/-- A new entry spills over when no slot is free. -/
theorem upsert_appended (formed : WellFormed numSlots width row) (inside : entry.toNat < width)
    (absent : Cell.value? row.slots entry = none) (unspilled : Cell.value? row.spare entry = none)
    (full : ¬ row.used < numSlots) :
    ∃ changed, row.upsert numSlots entry change = .ok (change default, changed, true) ∧
      Adds row changed true ∧ Upserted numSlots width entry (change default) row changed := by
  let fresh : Cell τ := ⟨entry, change default⟩
  refine ⟨{ row with
    erased := row.erased.filter (· != entry), spare := row.spare ++ [fresh] }, ?_, ?_, ?_, ?_, rfl⟩
  · simp only [upsert, formed.search_eq_none absent, Cell.modify?_eq_none unspilled, if_neg full]
    rfl
  · simp [Adds, cells, Nat.add_assoc]
  · exact {
      ascending := formed.ascending
      counted := formed.counted
      countable := formed.countable
      distinct := by
        have same : (row.spare ++ [fresh]).Perm (fresh :: row.spare) := List.perm_append_singleton ..
        exact (Cell.distinct_perm same).2 (Cell.distinct_cons formed.distinct unspilled)
      apart := fun cell member => by
        rcases List.mem_append.1 member with inSpare | isFresh
        · exact formed.apart cell inSpare
        · rw [List.mem_singleton.1 isFresh]
          exact absent
      fits := formed.fits
      full := fun _ => Nat.le_antisymm formed.fits (formed.counted ▸ Nat.not_lt.1 full)
      below := by
        intro cell member
        rcases List.mem_append.1 member with inSlots | member
        · exact formed.below cell (List.mem_append_left _ inSlots)
        · rcases List.mem_append.1 member with inSpare | isFresh
          · exact formed.below cell (List.mem_append_right _ inSpare)
          · exact List.mem_singleton.1 isFresh ▸ inside }
  · intro other
    simp only [DraftRow.written?, cells, Cell.value?_append, Cell.value?_cons, Cell.value?_nil]
    by_cases equal : entry = other
    · simp [← equal, absent, unspilled, fresh]
    · simp [equal, fresh]

/-- A write succeeds on an entry below the width of its row if it finds room. -/
theorem upsert_upserted (formed : WellFormed numSlots width row) (inside : entry.toNat < width)
    (room : row.HasRoom numSlots entry) (change : τ → τ) :
    ∃ changed added,
      row.upsert numSlots entry change =
        .ok (change ((row.written? entry).getD default), changed, added) ∧
      Adds row changed added ∧
      Upserted numSlots width entry (change ((row.written? entry).getD default)) row changed := by
  have split : row.written? entry =
      (Cell.value? row.slots entry).or (Cell.value? row.spare entry) := Cell.value?_append ..
  cases slotted : Cell.value? row.slots entry with
  | some value =>
      rw [split, slotted]
      obtain ⟨changed, written⟩ := upsert_slotted formed slotted
      exact ⟨changed, false, written⟩
  | none =>
      by_cases free : row.used < numSlots
      · obtain ⟨unwritten, changed, written⟩ :=
          upsert_placed change formed inside slotted free (room slotted free)
        rw [unwritten]
        exact ⟨changed, true, written⟩
      · rw [split, slotted]
        cases spilled : Cell.value? row.spare entry with
        | some value =>
            obtain ⟨changed, written⟩ := upsert_spilled formed slotted spilled
            exact ⟨changed, false, written⟩
        | none =>
            obtain ⟨changed, written⟩ := upsert_appended formed inside slotted spilled free
            exact ⟨changed, true, written⟩

/-- A write that finds no room is a defect, whatever it writes. -/
theorem upsert_of_not_hasRoom (formed : WellFormed numSlots width row)
    (noRoom : ¬ row.HasRoom numSlots entry) (change : τ → τ) :
    row.upsert numSlots entry change = .error (.defect .slotCountOverflow) := by
  simp only [HasRoom, Classical.not_imp] at noRoom
  have ⟨absent, free, uncountable⟩ := noRoom
  simp only [upsert, formed.search_eq_none absent, if_pos free, if_neg uncountable]

end Upsert

end DraftRow

namespace Draft

variable {τ : Type}

/-- The cells that the first rows of a draft hold together. -/
def countCells (rows : List (DraftRow τ)) (bound : Nat) : Nat :=
  ((rows.take bound).flatMap DraftRow.cells).length

/-- A draft as it comes about by writing and erasing. -/
structure WellFormed (draft : Draft τ) : Prop where
  length : draft.rows.length = draft.layout.numRows
  counted : draft.exclusiveInsertions = countCells draft.rows draft.layout.exclusive
  rows : ∀ row ∈ draft.rows, row.WellFormed draft.numSlots draft.maxEntries

/-- Two drafts for the same rows. -/
structure SameShape (first second : Draft τ) : Prop where
  layout : first.layout = second.layout
  numSlots : first.numSlots = second.numSlots
  maxEntries : first.maxEntries = second.maxEntries

theorem SameShape.refl (draft : Draft τ) : SameShape draft draft := ⟨rfl, rfl, rfl⟩

theorem SameShape.trans {first second third : Draft τ} (left : SameShape first second)
    (right : SameShape second third) : SameShape first third where
  layout := left.layout.trans right.layout
  numSlots := left.numSlots.trans right.numSlots
  maxEntries := left.maxEntries.trans right.maxEntries

theorem WellFormed.row {draft : Draft τ} (formed : WellFormed draft) (number : Nat) :
    (draft.row number).WellFormed draft.numSlots draft.maxEntries := by
  rw [Draft.row]
  cases found : draft.rows[number]? with
  | none => exact DraftRow.wellFormed_empty ..
  | some row => exact formed.rows row (List.mem_of_getElem? found)

theorem WellFormed.row_eq_empty {draft : Draft τ} (formed : WellFormed draft) {number : Nat}
    (outside : draft.layout.numRows ≤ number) : draft.row number = {} := by
  rw [Draft.row, List.getElem?_eq_none (formed.length ▸ outside)]
  rfl

theorem countCells_cons (row : DraftRow τ) (rows : List (DraftRow τ)) (bound : Nat) :
    countCells (row :: rows) (bound + 1) = row.cells.length + countCells rows bound := by
  simp [countCells]

/-- A cell added to one of the first rows is one cell more. -/
theorem countCells_set {rows : List (DraftRow τ)} {number : Nat} {before changed : DraftRow τ}
    {added : Bool} (found : rows[number]? = some before) (adds : before.Adds changed added)
    (bound : Nat) :
    countCells (rows.set number changed) bound =
      if added && decide (number < bound) then countCells rows bound + 1
      else countCells rows bound := by
  induction rows generalizing number bound with
  | nil => cases found
  | cons head rows ih =>
      cases bound with
      | zero => simp [countCells]
      | succ bound =>
          cases number with
          | zero =>
              cases found
              rw [List.set_cons_zero, countCells_cons, countCells_cons, adds]
              cases added with
              | false => rfl
              | true => simp [Nat.add_right_comm]
          | succ number =>
              have rest := ih (by simpa using found) bound
              rw [List.set_cons_succ, countCells_cons, countCells_cons, rest]
              simp only [Nat.add_lt_add_iff_right]
              split <;> rfl

theorem row_record {draft : Draft τ} (number other : Nat) (changed : DraftRow τ) (added : Bool)
    (inside : number < draft.rows.length) :
    (draft.record number changed added).row other =
      if number = other then changed else draft.row other := by
  simp only [Draft.row, record, List.getElem?_set, inside, if_true]
  split <;> rfl

theorem check_eq_ok {draft : Draft τ} {row : Nat} {entry : UInt64}
    (rowInside : row < draft.layout.numRows) (entryInside : entry.toNat < draft.maxEntries) :
    draft.check row entry = .ok () := by
  simp only [check, Layout.checkRow, if_pos rowInside, if_neg (Nat.not_le.2 entryInside)]
  rfl

/-- What one change of one row leaves of the other rows. -/
structure Changed (number : Nat) (draft : Draft τ) (changed : DraftRow τ) (after : Draft τ) :
    Prop where
  formed : WellFormed after
  shape : SameShape after draft
  row : ∀ other, after.row other = if number = other then changed else draft.row other

theorem WellFormed.changed {draft : Draft τ} (formed : WellFormed draft) {number : Nat}
    (inside : number < draft.layout.numRows) {changed : DraftRow τ} {added : Bool}
    (adds : (draft.row number).Adds changed added)
    (changedFormed : changed.WellFormed draft.numSlots draft.maxEntries) :
    Changed number draft changed (draft.record number changed added) := by
  have placed : number < draft.rows.length := formed.length ▸ inside
  have found : draft.rows[number]? = some (draft.row number) := by
    rw [Draft.row, List.getElem?_eq_getElem placed]
    rfl
  refine ⟨⟨(List.length_set ..).trans formed.length, ?_, ?_⟩, ⟨rfl, rfl, rfl⟩, fun other =>
    row_record number other changed added placed⟩
  · simp only [record, formed.counted, countCells_set found adds]
  · intro row member
    rcases List.mem_or_eq_of_mem_set member with unchanged | equal
    · exact formed.rows row unchanged
    · exact equal ▸ changedFormed

theorem erase_changed {draft : Draft τ} (formed : WellFormed draft) {row : Nat} {entry : UInt64}
    (rowInside : row < draft.layout.numRows) (entryInside : entry.toNat < draft.maxEntries) :
    ∃ after, draft.erase row entry = .ok after ∧
      Changed row draft ((draft.row row).erase entry) after := by
  have before := formed.row row
  have adds : (draft.row row).Adds ((draft.row row).erase entry) false := rfl
  refine ⟨_, ?_, formed.changed rowInside adds ?_⟩
  · rw [Draft.erase, check_eq_ok rowInside entryInside]
    rfl
  · exact { before with }

theorem upsert_changed [Inhabited τ] {draft : Draft τ} (formed : WellFormed draft) {row : Nat}
    {entry : UInt64} (rowInside : row < draft.layout.numRows)
    (entryInside : entry.toNat < draft.maxEntries)
    (room : (draft.row row).HasRoom draft.numSlots entry) (change : τ → τ) :
    ∃ changed after,
      draft.upsert row entry change =
        .ok (change (((draft.row row).written? entry).getD default), after) ∧
      Changed row draft changed after ∧
      DraftRow.Upserted draft.numSlots draft.maxEntries entry
        (change (((draft.row row).written? entry).getD default)) (draft.row row) changed := by
  obtain ⟨changed, added, done, adds, upserted⟩ :=
    DraftRow.upsert_upserted (formed.row row) entryInside room change
  refine ⟨changed, _, ?_, formed.changed rowInside adds upserted.formed, upserted⟩
  rw [Draft.upsert, check_eq_ok rowInside entryInside]
  simp only [bind, Except.bind, done]
  rfl

theorem upsert_of_not_hasRoom [Inhabited τ] {draft : Draft τ} (formed : WellFormed draft) {row : Nat}
    {entry : UInt64} (rowInside : row < draft.layout.numRows)
    (entryInside : entry.toNat < draft.maxEntries)
    (noRoom : ¬ (draft.row row).HasRoom draft.numSlots entry) (change : τ → τ) :
    draft.upsert row entry change = .error (.defect .slotCountOverflow) := by
  rw [Draft.upsert, check_eq_ok rowInside entryInside]
  simp only [bind, Except.bind, DraftRow.upsert_of_not_hasRoom (formed.row row) noRoom]

/-- What a fresh draft is. -/
structure Fresh (layout : Layout) (numSlots maxEntries : Nat) (draft : Draft τ) : Prop where
  formed : WellFormed draft
  layout : draft.layout = layout
  numSlots : draft.numSlots = numSlots
  maxEntries : draft.maxEntries = maxEntries
  row : ∀ number, draft.row number = {}

theorem fresh_empty (layout : Layout) (numSlots maxEntries : Nat) :
    Fresh layout numSlots maxEntries (empty layout numSlots maxEntries : Draft τ) := by
  refine ⟨⟨List.length_replicate, ?_, fun row member => ?_⟩, rfl, rfl, rfl, fun number => ?_⟩
  · simp [empty, countCells, List.take_replicate, DraftRow.cells]
  · rw [List.eq_of_mem_replicate member]
    exact DraftRow.wellFormed_empty ..
  · simp only [empty, Draft.row, List.getElem?_replicate]
    split <;> rfl

theorem create_eq_ok {memory : Memory} {layout : Layout} {numSlots maxEntries : Nat} {draft : Draft τ}
    (created : Draft.create memory layout numSlots maxEntries = .ok draft) :
    BlockTable.check memory layout.numRows numSlots = .ok () ∧
      draft = empty layout numSlots maxEntries := by
  unfold Draft.create at created
  obtain ⟨_, created⟩ := refuse_eq_ok.1 created
  obtain ⟨⟨⟩, granted, created⟩ := bind_eq_ok.1 created
  cases created
  exact ⟨granted, rfl⟩

theorem create_fresh {memory : Memory} {layout : Layout} {numSlots maxEntries : Nat}
    {draft : Draft τ} (created : Draft.create memory layout numSlots maxEntries = .ok draft) :
    Fresh layout numSlots maxEntries draft :=
  (create_eq_ok created).2 ▸ fresh_empty layout numSlots maxEntries

end Draft

end Subdomain

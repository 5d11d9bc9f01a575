import Subdomain.Proofs.Sparse.Placement
import Subdomain.Proofs.Sparse.Replay

/-!
# The slots of a draft as a table

A draft keeps the slots of a row with the row.  They are what one table holds: the creation of a draft asks
for that table, and every change that is made writes the slots of its row there and touches no other row.
-/

namespace Subdomain

/-! ## Tables of blocks -/

namespace BlockTable

variable {α : Type} {table after : BlockTable α} {blocks : List (List α)} {number : Nat}

/-- The rows of a table, one after the other in its buffer. -/
structure Holds (table : BlockTable α) (blocks : List (List α)) : Prop where
  count : blocks.length = table.rows
  wide : ∀ block ∈ blocks, block.length = table.stride
  cells : table.cells = blocks.flatten

theorem holds_allocate {memory : Memory} {rows stride : Nat} {fill : α}
    (allocated : allocate memory rows stride fill = .ok table) :
    table.Holds (.replicate rows (.replicate stride fill)) := by
  rw [allocate] at allocated
  cases granted : check memory rows stride with
  | error error =>
      rw [granted] at allocated
      cases allocated
  | ok _ =>
      rw [granted] at allocated
      cases allocated
      refine ⟨List.length_replicate, ?_, List.flatten_replicate_replicate.symm⟩
      intro block member
      rw [List.eq_of_mem_replicate member, List.length_replicate]

/-- Blocks of one width are found again one after the other. -/
theorem slice_flatten {width position : Nat} {block : List α}
    (wide : ∀ block ∈ blocks, block.length = width) (found : blocks[position]? = some block) :
    Extent.slice ⟨position * width, width⟩ blocks.flatten = block := by
  induction blocks generalizing position with
  | nil => cases found
  | cons head rest ih =>
      have headWide := wide head List.mem_cons_self
      cases position with
      | zero =>
          cases found
          rw [Nat.zero_mul, ← headWide, List.flatten_cons, Extent.slice_front]
      | succ position =>
          have step := ih (fun other member => wide other (List.mem_cons_of_mem _ member)) found
          have place : (position + 1) * width = head.length + position * width := by
            rw [headWide, Nat.succ_mul, Nat.add_comm]
          rw [place, List.flatten_cons, Extent.slice_append, step]

/-- What a row number gives: the block of that number, or the error that names it. -/
theorem Holds.row (holds : table.Holds blocks) (number : Nat) :
    table.row number =
      match blocks[number]? with
      | some block => .ok block
      | none => .error (.rowOutOfBounds number table.rows) := by
  rw [BlockTable.row, ← holds.count]
  cases found : blocks[number]? with
  | none => rw [if_neg (Nat.not_lt.2 (List.getElem?_eq_none_iff.1 found))]
  | some block =>
      obtain ⟨inside, rfl⟩ := List.getElem?_eq_some_iff.1 found
      rw [if_pos inside, holds.cells]
      exact congrArg Except.ok (slice_flatten holds.wide found)

/-- A row that is written changes over the length of what is written, and the others stay. -/
theorem Holds.writeRow (holds : table.Holds blocks) {block : List α}
    (found : blocks[number]? = some block) (values : List α) :
    table.writeRow number values = .ok { table with
      cells := (blocks.set number (overwrite 0 (values.take table.stride) block)).flatten } := by
  have inside : number < table.rows := holds.count ▸ (List.getElem?_eq_some_iff.1 found).1
  have within : (values.take table.stride).length ≤ table.stride := List.length_take_le ..
  rw [BlockTable.writeRow, if_pos inside, holds.cells, overwrite_flatten holds.wide found within]

theorem Holds.set (holds : table.Holds blocks) {block : List α}
    (found : blocks[number]? = some block) (values : List α) :
    let written := blocks.set number (overwrite 0 (values.take table.stride) block)
    Holds { table with cells := written.flatten } written where
  count := (List.length_set ..).trans holds.count
  wide := by
    intro other member
    rcases List.mem_or_eq_of_mem_set member with unchanged | rfl
    · exact holds.wide other unchanged
    · have wide := holds.wide block (List.mem_of_getElem? found)
      simp only [overwrite, List.take_zero, List.nil_append, Nat.zero_add, List.length_append,
        List.length_drop, List.length_take, wide]
      omega
  cells := rfl

/-- Reading after writing: the row written begins with what was written, and the others are as before. -/
theorem row_writeRow (holds : table.Holds blocks) {values : List α}
    (written : table.writeRow number values = .ok after) (other : Nat) :
    after.row other =
      if number = other then (table.row number).map (overwrite 0 (values.take table.stride))
      else table.row other := by
  have inside : number < blocks.length := by
    by_contra outside
    rw [holds.count] at outside
    rw [BlockTable.writeRow, if_neg outside] at written
    cases written
  have found := List.getElem?_eq_getElem inside
  rw [holds.writeRow found] at written
  cases written
  rw [(holds.set found values).row, holds.row, holds.row, List.getElem?_set]
  by_cases here : number = other
  · subst here
    rw [if_pos rfl, if_pos rfl, if_pos inside, found]
    rfl
  · rw [if_neg here, if_neg here]

/-- Write to rows in turn. -/
def writeAll (table : BlockTable α) (writes : List (Nat × List α)) : Except Error (BlockTable α) :=
  writes.foldlM (fun table write => table.writeRow write.1 write.2) table

end BlockTable

/-! ## Slots -/

variable {τ : Type}

/-- A change of a cell that is there adds none. -/
theorem Cell.length_modifyAscending? {entry : UInt64} {change : τ → τ} {row changed : List (Cell τ)}
    {value : τ} (modified : modifyAscending? entry change row = some (value, changed)) :
    changed.length = row.length := by
  induction row generalizing changed with
  | nil => cases modified
  | cons head rest ih =>
      rw [modifyAscending?] at modified
      split at modified
      · obtain ⟨⟨_, later⟩, found, same⟩ := Option.map_eq_some_iff.1 modified
        cases same
        rw [List.length_cons, List.length_cons, ih found]
      · split at modified
        · cases modified
          rfl
        · cases modified

variable [Inhabited τ]

/-- A row that takes a change holds no fewer slots than before. -/
theorem DraftRow.length_slots_upsert {numSlots : Nat} {entry : UInt64} {change : τ → τ}
    {row changed : DraftRow τ} {value : τ} {added : Bool}
    (done : row.upsert numSlots entry change = .ok (value, changed, added)) :
    row.slots.length ≤ changed.slots.length := by
  simp only [DraftRow.upsert] at done
  split at done
  · next modified =>
    cases done
    exact (Cell.length_modifyAscending? modified).ge
  · split at done
    · split at done
      · cases done
        rw [(Cell.perm_place _ row.slots).length_eq]
        exact Nat.le_succ _
      · cases done
    · split at done
      · cases done
        exact Nat.le_refl _
      · cases done
        exact Nat.le_refl _

namespace Draft

variable {draft after : Draft τ} {number : Nat}

/-- The slots of every row, and vacant ones up to the number of slots. -/
def slotBlocks (draft : Draft τ) : List (List (Cell τ)) :=
  draft.rows.map fun row => padded draft.numSlots row.slots

/-- The slots of a draft in one table. -/
def slotTable (draft : Draft τ) : BlockTable (Cell τ) where
  rows := draft.layout.numRows
  stride := draft.numSlots
  cells := draft.slotBlocks.flatten

theorem WellFormed.getElem?_slotBlocks (formed : draft.WellFormed)
    (inside : number < draft.layout.numRows) :
    draft.slotBlocks[number]? = some (padded draft.numSlots (draft.row number).slots) := by
  have placed : number < draft.rows.length := formed.length ▸ inside
  rw [slotBlocks, List.getElem?_map, Draft.row, List.getElem?_eq_getElem placed]
  rfl

theorem WellFormed.holds_slotTable (formed : draft.WellFormed) :
    draft.slotTable.Holds draft.slotBlocks where
  count := (List.length_map _).trans formed.length
  wide := by
    intro block member
    obtain ⟨row, listed, rfl⟩ := List.mem_map.1 member
    exact length_padded (formed.rows row listed).fits
  cells := rfl

/-- A draft is created with the table that the memory grants. -/
theorem allocate_slotTable {memory : Memory} {layout : Layout} {numSlots maxEntries : Nat}
    (created : Draft.create memory layout numSlots maxEntries = .ok draft) :
    BlockTable.allocate memory layout.numRows numSlots Cell.vacant = .ok draft.slotTable := by
  obtain ⟨granted, rfl⟩ := create_eq_ok created
  rw [BlockTable.allocate, granted]
  simp [Except.map, slotTable, slotBlocks, empty, padded]

/-- A row of the table begins with the slots of the draft's row. -/
theorem row_slotTable (formed : draft.WellFormed) (inside : number < draft.layout.numRows) :
    draft.slotTable.row number = .ok (padded draft.numSlots (draft.row number).slots) := by
  rw [formed.holds_slotTable.row, formed.getElem?_slotBlocks inside]

/-- To record a row that holds no fewer slots is to write its slots. -/
theorem writeRow_slotTable (formed : draft.WellFormed) (inside : number < draft.layout.numRows)
    {changed : DraftRow τ} (fits : changed.slots.length ≤ draft.numSlots)
    (grown : (draft.row number).slots.length ≤ changed.slots.length) (added : Bool) :
    draft.slotTable.writeRow number changed.slots =
      .ok (draft.record number changed added).slotTable := by
  have covered := overwrite_padded (formed.row number).fits fits
  rw [Nat.sub_eq_zero_of_le grown, List.replicate_zero, List.append_nil] at covered
  rw [formed.holds_slotTable.writeRow (formed.getElem?_slotBlocks inside),
    show draft.slotTable.stride = draft.numSlots from rfl, List.take_of_length_le fits, covered]
  simp only [slotTable, slotBlocks, record, List.map_set]

/-- An upsert writes the slots of its row. -/
theorem writeRow_upsert {row : Nat} {entry : UInt64} {change : τ → τ} {value : τ}
    (formed : draft.WellFormed) (formedAfter : after.WellFormed)
    (done : draft.upsert row entry change = .ok (value, after)) :
    draft.slotTable.writeRow row (after.row row).slots = .ok after.slotTable := by
  obtain ⟨⟨⟩, accepted, done⟩ := bind_eq_ok.1 done
  obtain ⟨⟨_, changed, added⟩, upserted, done⟩ := bind_eq_ok.1 done
  cases done
  have inside := (inside_of_check accepted).1
  have fits := (formedAfter.row row).fits
  rw [row_record row row changed added (formed.length ▸ inside), if_pos rfl] at fits ⊢
  exact writeRow_slotTable formed inside fits (DraftRow.length_slots_upsert upserted) added

/-- A change that is made writes the slots of its row, and of no other. -/
theorem writeRow_change {before : Key → Option τ} {replay : Replay τ} {change : Change τ}
    (follows : Follows before draft replay) (made : draft.change change = .ok after) :
    draft.slotTable.writeRow change.key.1 (after.row change.key.1).slots = .ok after.slotTable := by
  have formed := follows.formed
  have formedAfter := (follows.of_change made).2.formed
  cases change with
  | set row entry value =>
      obtain ⟨_, upserted, made⟩ := bind_eq_ok.1 made
      cases made
      exact writeRow_upsert formed formedAfter upserted
  | update row entry change =>
      obtain ⟨_, upserted, made⟩ := bind_eq_ok.1 made
      cases made
      exact writeRow_upsert formed formedAfter upserted
  | erase row entry =>
      obtain ⟨⟨⟩, accepted, made⟩ := bind_eq_ok.1 made
      cases made
      have inside := (inside_of_check accepted).1
      let erased := draft.record row ((draft.row row).erase entry) false
      have changed : erased.row row = (draft.row row).erase entry :=
        (row_record row row _ false (formed.length ▸ inside)).trans (if_pos rfl)
      have fits : ((draft.row row).erase entry).slots.length ≤ draft.numSlots := (formed.row row).fits
      show draft.slotTable.writeRow row (erased.row row).slots = .ok erased.slotTable
      rw [changed]
      exact writeRow_slotTable formed inside fits (Nat.le_refl _) false

/-- By induction on the changes: each writes one row of the table. -/
theorem writeAll_changeAll {before : Key → Option τ} {replay : Replay τ} {changes : List (Change τ)}
    (follows : Follows before draft replay) (made : draft.changeAll changes = .ok after) :
    ∃ slots : List (List (Cell τ)), slots.length = changes.length ∧
      draft.slotTable.writeAll ((changes.map fun change => change.key.1).zip slots) =
        .ok after.slotTable := by
  induction changes generalizing draft replay with
  | nil =>
      cases made
      exact ⟨[], rfl, rfl⟩
  | cons change changes ih =>
      rw [Draft.changeAll, List.foldlM_cons] at made
      obtain ⟨next, first, rest⟩ := bind_eq_ok.1 made
      obtain ⟨slots, count, written⟩ := ih (follows.of_change first).2 rest
      refine ⟨(next.row change.key.1).slots :: slots, congrArg (· + 1) count, ?_⟩
      rw [List.map_cons, List.zip_cons_cons, BlockTable.writeAll, List.foldlM_cons,
        writeRow_change follows first]
      exact written

/-- From its creation on, a draft holds the slots that are in the table, if every change that is made
writes the slots of its row there. -/
theorem slotTable_of_changeAll {memory : Memory} {layout : Layout} {numSlots maxEntries : Nat}
    {changes : List (Change τ)}
    (created : Draft.create memory layout numSlots maxEntries = .ok draft)
    (made : draft.changeAll changes = .ok after) :
    ∃ slots : List (List (Cell τ)), slots.length = changes.length ∧
      (BlockTable.allocate memory layout.numRows numSlots Cell.vacant >>= fun table =>
        table.writeAll ((changes.map fun change => change.key.1).zip slots)) =
        .ok after.slotTable := by
  have follows := (create_fresh created).follows fun _ => none
  rw [allocate_slotTable created]
  exact writeAll_changeAll follows made

end Draft

end Subdomain

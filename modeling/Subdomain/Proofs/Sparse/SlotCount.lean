import Subdomain.Proofs.Sparse.KeySets

/-!
# The count of slots in use

A row of a draft counts its slots in 16 bits.  A draft may be created with more slots and a larger row
width than can be counted, and nothing stops a row from filling them.  As many slots of a row are in use
as distinct keys were written to it, up to the number of slots there are; changes are made exactly as long
as every such number can be counted.
-/

namespace Subdomain

/-! ## Keys of one row -/

section Keys

variable {τ : Type} {changes : List (Change τ)} {change : Change τ}

/-- The keys of one row that are written. -/
def keysWrittenTo (changes : List (Change τ)) (row : Nat) : Finset Key :=
  (keysWritten changes).filter (·.1 = row)

/-- The slots of a row that changes bring into use. -/
def slotsUsed (numSlots : Nat) (changes : List (Change τ)) (row : Nat) : Nat :=
  min numSlots (keysWrittenTo changes row).card

theorem keysWrittenTo_subset_concat (changes : List (Change τ)) (change : Change τ) (row : Nat) :
    keysWrittenTo changes row ⊆ keysWrittenTo (changes ++ [change]) row := by
  apply Finset.filter_subset_filter
  intro key written
  exact mem_keysWritten_concat.2 (.inr written)

theorem slotsUsed_le_concat (numSlots : Nat) (changes : List (Change τ)) (change : Change τ)
    (row : Nat) : slotsUsed numSlots changes row ≤ slotsUsed numSlots (changes ++ [change]) row :=
  min_le_min_left numSlots (Finset.card_le_card (keysWrittenTo_subset_concat changes change row))

/-- A key that is written for the first time is one more in its row. -/
theorem card_keysWrittenTo_concat (writes : change.isWrite = true)
    (unwritten : change.key ∉ keysWritten changes) :
    (keysWrittenTo (changes ++ [change]) change.key.1).card =
      (keysWrittenTo changes change.key.1).card + 1 := by
  have one_more : keysWrittenTo (changes ++ [change]) change.key.1 =
      insert change.key (keysWrittenTo changes change.key.1) := by
    ext key
    simp only [keysWrittenTo, Finset.mem_insert, Finset.mem_filter, mem_keysWritten_concat, writes,
      true_and]
    constructor
    · intro ⟨isWritten, sameRow⟩
      exact isWritten.imp Eq.symm fun earlier => ⟨earlier, sameRow⟩
    · intro isWritten
      cases isWritten with
      | inl same => exact ⟨.inl same.symm, congrArg Prod.fst same⟩
      | inr earlier => exact ⟨.inr earlier.1, earlier.2⟩
  rw [one_more, Finset.card_insert_of_notMem]
  exact fun member => unwritten (Finset.mem_of_mem_filter _ member)

/-- No more slots are in use than changes were made. -/
theorem slotsUsed_le_length (numSlots : Nat) (changes : List (Change τ)) (row : Nat) :
    slotsUsed numSlots changes row ≤ changes.length :=
  calc slotsUsed numSlots changes row
      ≤ (keysWrittenTo changes row).card := Nat.min_le_right ..
    _ ≤ (keysWritten changes).card := Finset.card_filter_le ..
    _ ≤ ((changes.filter Change.isWrite).map Change.key).length := List.toFinset_card_le _
    _ ≤ changes.length := by
        rw [List.length_map]
        exact List.length_filter_le ..

end Keys

/-! ## Slots of one row -/

section Following

variable {τ : Type} [Inhabited τ] {before : Key → Option τ} {draft after : Draft τ}
  {changes : List (Change τ)} {change : Change τ}

/-- A row holds one cell for each key that was written to it. -/
theorem Follows.length_cells (follows : Follows before draft (Replay.epoch before changes))
    (row : Nat) : (draft.row row).cells.length = (keysWrittenTo changes row).card := by
  have distinct : ((draft.row row).cells.map Cell.entry).Nodup :=
    List.pairwise_map.2 (follows.formed.row row).distinct_cells
  have keys : keysWrittenTo changes row =
      ((draft.row row).cells.map Cell.entry).toFinset.image (row, ·) := by
    ext ⟨number, entry⟩
    simp only [keysWrittenTo, Finset.mem_filter, Finset.mem_image, List.mem_toFinset,
      DraftRow.mem_entries_cells, Prod.mk.injEq]
    constructor
    · intro ⟨written, sameRow⟩
      subst sameRow
      exact ⟨entry, (follows.mem_keysWritten number entry).1 written, rfl, rfl⟩
    · intro ⟨column, written, sameRow, sameEntry⟩
      subst sameRow sameEntry
      exact ⟨(follows.mem_keysWritten row column).2 written, rfl⟩
  rw [keys, Finset.card_image_of_injective _ (Prod.mk_right_injective row),
    List.toFinset_card_of_nodup distinct, List.length_map]

theorem Follows.used_eq (follows : Follows before draft (Replay.epoch before changes)) (row : Nat) :
    (draft.row row).used = slotsUsed draft.numSlots changes row := by
  rw [(follows.formed.row row).used_eq, follows.length_cells, slotsUsed]

/-- A write without room would bring one slot more into use than can be counted. -/
theorem Follows.uncountable_of_not_hasRoom
    (follows : Follows before draft (Replay.epoch before changes))
    (noRoom : ¬ draft.HasRoom change) :
    maxRowLength < slotsUsed draft.numSlots (changes ++ [change]) change.key.1 := by
  cases change with
  | erase row entry => exact absurd trivial noRoom
  | set row entry _ | update row entry _ =>
      simp only [Draft.HasRoom, DraftRow.HasRoom, Classical.not_imp] at noRoom
      obtain ⟨absent, free, uncountable⟩ := noRoom
      have unwritten : (row, entry) ∉ keysWritten changes := by
        rw [follows.mem_keysWritten,
          (follows.formed.row row).unwritten_of_free absent free]
        simp
      have used := follows.used_eq row
      rw [used] at free uncountable
      rw [slotsUsed, card_keysWrittenTo_concat rfl unwritten]
      simp only [slotsUsed, Change.key] at free uncountable ⊢
      omega

end Following

/-! ## Changes until the count overflows -/

namespace Draft

variable {τ : Type} [Inhabited τ] {fresh : Draft τ} {layout : Layout} {numSlots maxEntries : Nat}

/-- Changes inside the layout and the row width are made, or would bring more slots of some row into use
than can be counted: by induction on the changes, from the last. -/
theorem Fresh.changeAll_cases (isFresh : fresh.Fresh layout numSlots maxEntries)
    {changes : List (Change τ)} (inside : ∀ change ∈ changes, change.Inside layout maxEntries) :
    (∃ draft, fresh.changeAll changes = .ok draft) ∨
      fresh.changeAll changes = .error (.defect .slotCountOverflow) ∧
        ∃ row, maxRowLength < slotsUsed numSlots changes row := by
  induction changes using List.reverseRecOn with
  | nil => exact .inl ⟨fresh, rfl⟩
  | append_singleton changes change ih =>
      have earlier := ih fun other member => inside other (List.mem_append_left _ member)
      rw [changeAll_concat]
      cases earlier with
      | inr overflow =>
          obtain ⟨failed, row, uncountable⟩ := overflow
          rw [failed]
          exact .inr ⟨rfl, row, uncountable.trans_le (slotsUsed_le_concat ..)⟩
      | inl made =>
          obtain ⟨draft, made⟩ := made
          obtain ⟨sameLayout, sameSlots, sameWidth, follows⟩ := isFresh.made made fun _ => none
          have within : change.Inside draft.layout draft.maxEntries := by
            rw [sameLayout, sameWidth]
            exact inside change (List.mem_append_right _ List.mem_cons_self)
          rw [made]
          by_cases room : draft.HasRoom change
          · obtain ⟨after, made, _⟩ := follows.change_of_hasRoom within room
            exact .inl ⟨after, made⟩
          · have uncountable := follows.uncountable_of_not_hasRoom room
            rw [sameSlots] at uncountable
            exact .inr ⟨change_of_not_hasRoom follows.formed within room, _, uncountable⟩

/-- The count of a row that more slots would come into use of than can be counted overflows. -/
theorem Fresh.changeAll_overflows (isFresh : fresh.Fresh layout numSlots maxEntries)
    {changes : List (Change τ)} (inside : ∀ change ∈ changes, change.Inside layout maxEntries)
    {row : Nat} (uncountable : maxRowLength < slotsUsed numSlots changes row) :
    fresh.changeAll changes = .error (.defect .slotCountOverflow) := by
  cases isFresh.changeAll_cases inside with
  | inr overflow => exact overflow.1
  | inl made =>
      obtain ⟨draft, made⟩ := made
      obtain ⟨_, sameSlots, _, follows⟩ := isFresh.made made fun _ => none
      have counted : slotsUsed numSlots changes row ≤ maxRowLength := by
        rw [← sameSlots, ← follows.used_eq]
        exact (follows.formed.row row).countable
      exact absurd uncountable (Nat.not_lt.2 counted)

/-- On a draft with any number of slots and any row width, changes inside are made exactly as long as the
slots that they bring into use can be counted.  The count of every row then is the number of its slots in
use, and the draft shows every key that was written and not erased since.  Otherwise the count of a row
overflows. -/
theorem changeAll_counts_slots {memory : Memory}
    (created : Draft.create memory layout numSlots maxEntries = .ok fresh)
    {changes : List (Change τ)} (inside : ∀ change ∈ changes, change.Inside layout maxEntries) :
    ((∀ row, slotsUsed numSlots changes row ≤ maxRowLength) →
      ∃ draft, fresh.changeAll changes = .ok draft ∧
        (∀ row, (draft.row row).used = (draft.row row).slots.length ∧
          (draft.row row).used = slotsUsed numSlots changes row) ∧
        draft.ShowsKeys (keysWritten changes) (keysErased changes)) ∧
    ((∃ row, maxRowLength < slotsUsed numSlots changes row) →
      fresh.changeAll changes = .error (.defect .slotCountOverflow)) := by
  have isFresh := create_fresh created
  constructor
  · intro countable
    cases isFresh.changeAll_cases inside with
    | inr overflow =>
        obtain ⟨_, row, uncountable⟩ := overflow
        exact absurd uncountable (Nat.not_lt.2 (countable row))
    | inl made =>
        obtain ⟨draft, made⟩ := made
        obtain ⟨_, sameSlots, _, follows⟩ := isFresh.made made fun _ => none
        refine ⟨draft, made, ?_, follows.showsKeys_epoch⟩
        intro row
        exact ⟨(follows.formed.row row).counted, sameSlots ▸ follows.used_eq row⟩
  · intro ⟨row, uncountable⟩
    exact isFresh.changeAll_overflows inside uncountable

/-- A wide row of more slots than can be counted, of which few come into use. -/
theorem changeAll_counts_slots_mixedCalls :
    let memory : Memory := .ofElementBytes 8
    let layout : Layout := { exclusive := 1, ghost := 1 }
    let changes : List (Change Nat) := [.set 0 2 7, .update 1 65535 (· + 1), .erase 0 2, .set 0 1 8]
    ∃ fresh draft, Draft.create memory layout 65536 65536 = .ok fresh ∧
      fresh.changeAll changes = .ok draft ∧
      (draft.row 0).used = 2 ∧ (draft.row 1).used = 1 ∧
      draft.ShowsKeys {(0, 1), (0, 2), (1, 65535)} {(0, 2)} := by
  intro memory layout changes
  let fresh : Draft Nat := .empty layout 65536 65536
  have created : Draft.create memory layout 65536 65536 = .ok fresh := by decide +kernel
  have inside : ∀ change ∈ changes, change.Inside layout 65536 := by
    simp [changes, Change.Inside, Change.key, layout, Layout.numRows]
  have few : ∀ row, slotsUsed 65536 changes row ≤ maxRowLength := fun row =>
    (slotsUsed_le_length 65536 changes row).trans (by decide)
  obtain ⟨draft, made, counts, shows⟩ := (changeAll_counts_slots created inside).1 few
  have written : keysWritten changes = {(0, 1), (0, 2), (1, 65535)} := by decide +kernel
  have erased : keysErased changes = {(0, 2)} := by decide +kernel
  have first : slotsUsed 65536 changes 0 = 2 := by decide +kernel
  have second : slotsUsed 65536 changes 1 = 1 := by decide +kernel
  rw [written, erased] at shows
  exact ⟨fresh, draft, created, made, (counts 0).2.trans first, (counts 1).2.trans second, shows⟩

/-- One write to each of the first entries of a row. -/
def fillRow (row count : Nat) : List (Change Nat) :=
  (List.range count).map fun entry => .set row (.ofNat entry) 0

theorem keysWrittenTo_fillRow (row count : Nat) :
    keysWrittenTo (fillRow row count) row =
      (Finset.range count).image fun entry => (row, UInt64.ofNat entry) := by
  ext key
  simp only [keysWrittenTo, keysWritten, fillRow, List.filter_map, List.map_map,
    Finset.mem_filter, List.mem_toFinset, List.mem_map, List.mem_filter, List.mem_range,
    Finset.mem_image, Finset.mem_range, Function.comp_apply, Change.isWrite, Change.key, and_true]
  constructor
  · exact And.left
  · intro written
    refine ⟨written, ?_⟩
    obtain ⟨entry, _, same⟩ := written
    exact same ▸ rfl

/-- Entries of a word that are distinct as numbers are distinct keys. -/
theorem card_keysWrittenTo_fillRow (row : Nat) {count : Nat} (words : count ≤ UInt64.size) :
    (keysWrittenTo (fillRow row count) row).card = count := by
  rw [keysWrittenTo_fillRow, Finset.card_image_of_injOn, Finset.card_range]
  intro first inFirst second inSecond same
  have firstWord := (Finset.mem_range.1 inFirst).trans_le words
  have secondWord := (Finset.mem_range.1 inSecond).trans_le words
  have sameEntry : UInt64.ofNat first = UInt64.ofNat second := (Prod.mk.inj same).2
  have sameNumber := congrArg UInt64.toNat sameEntry
  rwa [UInt64.toNat_ofNat_of_lt' firstWord, UInt64.toNat_ofNat_of_lt' secondWord] at sameNumber

/-- A row that is as wide as it has slots, and has one more than can be counted, overflows. -/
theorem changeAll_overflows_fullRow :
    let memory : Memory := .ofElementBytes 8
    let changes := fillRow 0 65536
    ∃ fresh, Draft.create memory { exclusive := 1 } 65536 65536 = .ok fresh ∧
      (∀ change ∈ changes, change.Inside { exclusive := 1 } 65536) ∧
      fresh.changeAll changes = .error (.defect .slotCountOverflow) := by
  intro memory changes
  let fresh : Draft Nat := .empty { exclusive := 1 } 65536 65536
  have created : Draft.create memory { exclusive := 1 } 65536 65536 = .ok fresh := by decide +kernel
  have inside : ∀ change ∈ changes, change.Inside { exclusive := 1 } 65536 := by
    intro change member
    obtain ⟨entry, below, same⟩ := List.mem_map.1 member
    have short : entry < 65536 := List.mem_range.1 below
    subst same
    refine ⟨Nat.zero_lt_one, ?_⟩
    rw [Change.key, UInt64.toNat_ofNat_of_lt' (short.trans (by decide))]
    exact short
  have uncountable : maxRowLength < slotsUsed 65536 changes 0 := by
    rw [slotsUsed, card_keysWrittenTo_fillRow 0 (by decide)]
    decide
  exact ⟨fresh, created, inside, (create_fresh created).changeAll_overflows inside uncountable⟩

end Draft

end Subdomain

import Mathlib.Data.Finset.SDiff
import Mathlib.Data.Prod.Lex
import Subdomain.Proofs.Sparse.Calls

/-!
# Drafts as pairs of key sets

To its readers a draft is two sets of keys: those that were written, and those of which the last
change is an erasure.  It shows the first without the second.  Which cells are in slots and which have
spilled over, and that an erased value stays where it is, cannot be read off it.
-/

namespace Subdomain

/-! ## The key sets of a list of changes -/

section Changes

variable {τ : Type}

namespace Change

/-- Whether a value is written. -/
def isWrite : Change τ → Bool
  | .set .. | .update .. => true
  | .erase .. => false

/-- The value at the key after the change, given the one before it. -/
def value? [Inhabited τ] (held : Option τ) : Change τ → Option τ
  | .set _ _ value => some value
  | .update _ _ change => some (change (held.getD default))
  | .erase .. => held

end Change

/-- The keys that are written. -/
def keysWritten (changes : List (Change τ)) : Finset Key :=
  ((changes.filter Change.isWrite).map Change.key).toFinset

/-- The last change of a key. -/
def lastChange? (changes : List (Change τ)) (key : Key) : Option (Change τ) :=
  changes.reverse.find? (·.key == key)

/-- The keys of which the last change is an erasure. -/
def keysErased (changes : List (Change τ)) : Finset Key :=
  (changes.map Change.key).toFinset.filter fun key =>
    (lastChange? changes key).any fun change => !change.isWrite

/-- The value last written to a key. -/
def lastValue? [Inhabited τ] (changes : List (Change τ)) (key : Key) : Option τ :=
  (changes.filter (·.key == key)).foldl Change.value? none

variable {changes : List (Change τ)} {change : Change τ} {key : Key}

theorem mem_keysWritten_concat :
    key ∈ keysWritten (changes ++ [change]) ↔
      change.isWrite = true ∧ change.key = key ∨ key ∈ keysWritten changes := by
  cases writes : change.isWrite <;> simp [keysWritten, writes, @eq_comm _ key]

theorem lastChange?_concat :
    lastChange? (changes ++ [change]) key =
      if change.key = key then some change else lastChange? changes key := by
  rw [lastChange?, List.reverse_append, List.reverse_singleton, List.singleton_append,
    List.find?_cons]
  by_cases same : change.key = key
  · simp [same]
  · simp [same, beq_false_of_ne same, lastChange?]

theorem mem_keysErased :
    key ∈ keysErased changes ↔ ∃ change, lastChange? changes key = some change ∧
      change.isWrite = false := by
  rw [keysErased, Finset.mem_filter, Option.any_eq_true]
  constructor
  · rintro ⟨_, change, last, erases⟩
    exact ⟨change, last, by simpa using erases⟩
  · rintro ⟨change, last, erases⟩
    have listed := List.mem_reverse.1 (List.mem_of_find?_eq_some last)
    have same : change.key = key := by simpa using List.find?_some last
    have changed := List.mem_toFinset.2 (List.mem_map.2 ⟨change, listed, same⟩)
    exact ⟨changed, change, last, by simp [erases]⟩

theorem mem_keysErased_concat :
    key ∈ keysErased (changes ++ [change]) ↔
      if change.key = key then change.isWrite = false else key ∈ keysErased changes := by
  rw [mem_keysErased, lastChange?_concat]
  by_cases same : change.key = key
  · simp [same]
  · simp [same, mem_keysErased]

variable [Inhabited τ]

theorem lastValue?_concat :
    lastValue? (changes ++ [change]) key =
      if change.key = key then change.value? (lastValue? changes key)
      else lastValue? changes key := by
  rw [lastValue?, List.filter_append, List.foldl_append]
  by_cases same : change.key = key <;> simp [same, lastValue?]

/-- The written keys are those that hold a value: by induction on the changes, from the first. -/
theorem mem_keysWritten_iff :
    key ∈ keysWritten changes ↔ ∃ value, lastValue? changes key = some value := by
  induction changes using List.reverseRecOn with
  | nil => simp [keysWritten, lastValue?]
  | append_singleton changes change ih =>
      rw [mem_keysWritten_concat, ih, lastValue?_concat]
      by_cases same : change.key = key
      · rw [if_pos same]
        cases change with
        | set | update => simp [Change.isWrite, Change.value?, same]
        | erase => simp [Change.isWrite, Change.value?]
      · simp [same]

/-- The replay keeps the values last written and the keys last erased. -/
theorem Replay.epoch_keys (before : Key → Option τ) (changes : List (Change τ)) (key : Key) :
    (Replay.epoch before changes).written key = lastValue? changes key ∧
      (key ∈ (Replay.epoch before changes).pending ↔ key ∈ keysErased changes) := by
  induction changes using List.reverseRecOn with
  | nil => simp [Replay.epoch, lastValue?, keysErased]
  | append_singleton changes change ih =>
      obtain ⟨written, pending⟩ := ih
      have last : Replay.epoch before (changes ++ [change]) =
          (Replay.epoch before changes).step change := List.foldl_concat ..
      rw [last, lastValue?_concat, mem_keysErased_concat, ← written, ← pending]
      cases change with
      | set row entry _ | update row entry _ =>
          by_cases same : (row, entry) = key
          · subst same
            simp [Replay.step, Replay.write, Change.key, Change.value?, Change.isWrite]
          · have apart := Ne.symm same
            simp [Replay.step, Replay.write, Change.key, same, apart]
      | erase row entry =>
          by_cases same : (row, entry) = key
          · subst same
            simp [Replay.step, Change.key, Change.value?, Change.isWrite]
          · have apart := Ne.symm same
            simp [Replay.step, Change.key, same, apart]

end Changes

/-! ## Reading a row -/

namespace DraftRow

variable {τ : Type} {numSlots width : Nat} {row : DraftRow τ} {entry : UInt64}

theorem mem_entries_cells :
    entry ∈ row.cells.map Cell.entry ↔ ∃ value, row.written? entry = some value := by
  rw [← Option.isSome_iff_exists, written?, Cell.value?, Option.isSome_map, List.find?_isSome]
  simp

theorem contains_iff :
    row.contains entry = true ↔
      (∃ value, row.written? entry = some value) ∧ entry ∉ row.erased := by
  have held : (row.cells.any fun cell => cell.entry == entry) = true ↔
      entry ∈ row.cells.map Cell.entry := by
    simp
  rw [contains, Bool.and_eq_true, decide_eq_true_eq, held, mem_entries_cells, and_comm]

theorem mem_entries : entry ∈ row.entries ↔ row.contains entry = true := by
  simp only [entries, List.mem_map, (Cell.perm_sort _).mem_iff, List.mem_filter, contains,
    Bool.and_eq_true, decide_eq_true_eq, List.any_eq_true, beq_iff_eq]
  constructor
  · rintro ⟨cell, ⟨held, kept⟩, rfl⟩
    exact ⟨kept, cell, held, rfl⟩
  · rintro ⟨kept, cell, held, rfl⟩
    exact ⟨cell, ⟨held, kept⟩, rfl⟩

theorem WellFormed.ascending_entries (formed : WellFormed numSlots width row) :
    row.entries.Pairwise (· < ·) := by
  have kept := formed.distinct_cells.filter fun cell => decide (cell.entry ∉ row.erased)
  exact List.pairwise_map.2 (Cell.ascending_sort kept)

/-- The check of a row passes on every row that comes about. -/
theorem WellFormed.checkInvariantsOf (formed : WellFormed numSlots width row) {draft : Draft τ}
    (same : draft.numSlots = numSlots) (number : Nat) :
    draft.checkInvariantsOf row number = .ok () := by
  rw [Draft.checkInvariantsOf, same, formed.counted, if_neg (Nat.not_lt.2 formed.fits),
    if_neg (not_not.2 formed.ascending), if_neg]
  rintro ⟨spilled, free⟩
  have full := formed.full (by simpa using spilled)
  exact Nat.ne_of_lt free full

end DraftRow

/-! ## Reading all rows -/

namespace Draft

variable {τ : Type}

/-- Entries of each row, next to the number of the row. -/
def keyed (listed : DraftRow τ → List UInt64) (rows : List (DraftRow τ)) : List Key :=
  rows.zipIdx.flatMap fun (row, number) => (listed row).map (number, ·)

section Keyed

variable {listed : DraftRow τ → List UInt64} {rows : List (DraftRow τ)}

theorem mem_keyed {key : Key} :
    key ∈ keyed listed rows ↔ ∃ row, rows[key.1]? = some row ∧ key.2 ∈ listed row := by
  obtain ⟨number, entry⟩ := key
  simp only [keyed, List.mem_flatMap, List.mem_map, Prod.exists, Prod.mk.injEq,
    List.mk_mem_zipIdx_iff_getElem?]
  constructor
  · rintro ⟨row, _, found, _, member, rfl, rfl⟩
    exact ⟨row, found, member⟩
  · rintro ⟨row, found, member⟩
    exact ⟨row, number, found, entry, member, rfl, rfl⟩

theorem length_keyed : (keyed listed rows).length = (rows.flatMap listed).length := by
  have numbered : ∀ start, ((rows.zipIdx start).flatMap fun (row, number) =>
      (listed row).map ((number, ·) : UInt64 → Key)).length = (rows.flatMap listed).length := by
    intro start
    induction rows generalizing start with
    | nil => rfl
    | cons row rows ih => simp [ih]
  exact numbered 0

theorem ascending_keyed (each : ∀ row ∈ rows, (listed row).Pairwise (· < ·)) :
    (keyed listed rows).Pairwise (Prod.Lex (· < ·) (· < ·)) := by
  refine List.pairwise_flatMap.2 ⟨?_, ?_⟩
  · rintro ⟨row, number⟩ member
    have found := List.mk_mem_zipIdx_iff_getElem?.1 member
    refine List.pairwise_map.2 ((each row (List.mem_of_getElem? found)).imp fun less => ?_)
    exact .right _ less
  · refine (Store.pairwise_zipIdx rows 0).imp fun less first inFirst second inSecond => ?_
    obtain ⟨_, _, rfl⟩ := List.mem_map.1 inFirst
    obtain ⟨_, _, rfl⟩ := List.mem_map.1 inSecond
    exact .left _ _ less

theorem nodup_keyed (each : ∀ row ∈ rows, (listed row).Nodup) : (keyed listed rows).Nodup := by
  refine List.pairwise_flatMap.2 ⟨?_, ?_⟩
  · rintro ⟨row, number⟩ member
    have found := List.mk_mem_zipIdx_iff_getElem?.1 member
    refine List.pairwise_map.2 ((each row (List.mem_of_getElem? found)).imp fun apart same => ?_)
    exact apart (Prod.mk.inj same).2
  · refine (Store.pairwise_zipIdx rows 0).imp fun less first inFirst second inSecond same => ?_
    obtain ⟨_, _, rfl⟩ := List.mem_map.1 inFirst
    obtain ⟨_, _, rfl⟩ := List.mem_map.1 inSecond
    exact Nat.ne_of_lt less (Prod.mk.inj same).1

/-- As many entries are listed as there are keys, if no row lists an entry twice. -/
theorem length_flatMap_eq_card (each : ∀ row ∈ rows, (listed row).Nodup) {keys : Finset Key}
    (listsThem : ∀ key, key ∈ keys ↔ ∃ row, rows[key.1]? = some row ∧ key.2 ∈ listed row) :
    (rows.flatMap listed).length = keys.card := by
  have same : (keyed listed rows).toFinset = keys := by
    ext key
    rw [List.mem_toFinset, mem_keyed, listsThem]
  rw [← length_keyed, ← List.toFinset_card_of_nodup (nodup_keyed each), same]

/-- The numbers of the rows with a property, in the order of the rows. -/
theorem mem_numbers (property : DraftRow τ → Bool) (rows : List (DraftRow τ)) (number : Nat) :
    number ∈ (rows.zipIdx.filter fun (row, _) => property row).map Prod.snd ↔
      ∃ row, rows[number]? = some row ∧ property row = true := by
  simp [List.mk_mem_zipIdx_iff_getElem?]

theorem ascending_numbers (property : DraftRow τ → Bool) (rows : List (DraftRow τ)) :
    ((rows.zipIdx.filter fun (row, _) => property row).map Prod.snd).Pairwise (· < ·) :=
  List.pairwise_map.2 ((Store.pairwise_zipIdx rows 0).filter _)

end Keyed

/-- What a draft is seen to hold through every way of reading it: the written keys that are not erased,
in ascending order, with the counts of either set. -/
structure ShowsKeys (draft : Draft τ) (written erased : Finset Key) : Prop where
  contains : ∀ row entry, draft.contains row entry = true ↔ (row, entry) ∈ written \ erased
  entriesOf : ∀ row < draft.layout.numRows, ∃ entries, draft.entriesOf row = .ok entries ∧
    entries.Pairwise (· < ·) ∧ ∀ entry, entry ∈ entries ↔ (row, entry) ∈ written \ erased
  outside : ∀ row, draft.layout.numRows ≤ row →
    draft.entriesOf row = .error (.rowOutOfBounds row draft.layout.numRows)
  entries : ∀ key, key ∈ draft.entries ↔ key ∈ written \ erased
  entriesAscending : draft.entries.Pairwise (Prod.Lex (· < ·) (· < ·))
  indices : ∀ row, row ∈ draft.indices ↔ ∃ entry, (row, entry) ∈ written \ erased
  indicesAscending : draft.indices.Pairwise (· < ·)
  indicesWith : ∀ entry row, row ∈ draft.indicesWith entry ↔ (row, entry) ∈ written \ erased
  indicesWithAscending : ∀ entry, (draft.indicesWith entry).Pairwise (· < ·)
  pendingErasures : draft.pendingErasures = erased.card
  exclusiveInsertions :
    draft.exclusiveInsertions = (written.filter (·.1 < draft.layout.exclusive)).card

variable {draft : Draft τ}

theorem WellFormed.getElem?_rows (formed : draft.WellFormed) (number : Nat) :
    draft.rows[number]? =
      if number < draft.layout.numRows then some (draft.row number) else none := by
  split
  next inside =>
    have located : number < draft.rows.length := formed.length ▸ inside
    simp [Draft.row, located]
  next outside => exact List.getElem?_eq_none (formed.length ▸ Nat.not_lt.1 outside)

/-- A property that the empty row lacks holds of a listed row exactly when it holds of the row of that
number. -/
theorem WellFormed.exists_row_iff (formed : draft.WellFormed) (property : DraftRow τ → Prop)
    (lacks : ¬ property {}) (number : Nat) :
    (∃ row, draft.rows[number]? = some row ∧ property row) ↔ property (draft.row number) := by
  rw [formed.getElem?_rows]
  split
  next inside => simp
  next outside => simpa [formed.row_eq_empty (Nat.not_lt.1 outside)] using lacks

/-- What is written lies in the layout and below the row width. -/
theorem WellFormed.inside (formed : draft.WellFormed) {number : Nat} {entry : UInt64} {value : τ}
    (written : (draft.row number).written? entry = some value) :
    number < draft.layout.numRows ∧ entry.toNat < draft.maxEntries := by
  constructor
  · by_contra outside
    rw [formed.row_eq_empty (Nat.not_lt.1 outside)] at written
    cases written
  · exact (formed.row number).below _ (Cell.mem_of_value? written)

theorem WellFormed.checkInvariants (formed : draft.WellFormed) :
    draft.checkInvariants = .ok () := by
  have each : ∀ (rows : List (DraftRow τ)) (start : Nat),
      (∀ row ∈ rows, row.WellFormed draft.numSlots draft.maxEntries) →
      ((rows.zipIdx start).forM fun (row, number) => draft.checkInvariantsOf row number) =
        .ok () := by
    intro rows start
    induction rows generalizing start with
    | nil => exact fun _ => rfl
    | cons row rows ih =>
        intro formed
        have head := (formed row List.mem_cons_self).checkInvariantsOf rfl start
        show (draft.checkInvariantsOf row start >>= fun _ => _) = Except.ok ()
        rw [head]
        exact ih (start + 1) fun other member => formed other (List.mem_cons_of_mem _ member)
  exact each draft.rows 0 formed.rows

end Draft

section Showing

variable {τ : Type} [Inhabited τ] {before : Key → Option τ} {draft : Draft τ} {replay : Replay τ}

omit [Inhabited τ] in
/-- A draft shows the keys that its replay has written and those that it has pending. -/
theorem Follows.showsKeys (follows : Follows before draft replay) {written : Finset Key}
    (isWritten : ∀ key, key ∈ written ↔ ∃ value, replay.written key = some value) :
    draft.ShowsKeys written replay.pending := by
  have formed := follows.formed
  have held : ∀ number entry, (draft.row number).contains entry = true ↔
      (number, entry) ∈ written \ replay.pending := by
    intro number entry
    rw [DraftRow.contains_iff, follows.written, follows.pending, Finset.mem_sdiff, isWritten]
  have listed : ∀ number entry, entry ∈ (draft.row number).entries ↔
      (number, entry) ∈ written \ replay.pending := by
    intro number entry
    rw [DraftRow.mem_entries, held]
  constructor
  · exact held
  · intro row inside
    refine ⟨(draft.row row).entries, ?_, (formed.row row).ascending_entries, listed row⟩
    rw [Draft.entriesOf, Layout.checkRow, if_pos inside]
    rfl
  · intro row outside
    rw [Draft.entriesOf, Layout.checkRow, if_neg (Nat.not_lt.2 outside)]
    rfl
  · rintro ⟨number, entry⟩
    rw [← listed, ← formed.exists_row_iff (entry ∈ DraftRow.entries ·) List.not_mem_nil]
    exact Draft.mem_keyed
  · exact Draft.ascending_keyed fun row member => (formed.rows row member).ascending_entries
  · intro row
    rw [Draft.indices, Draft.mem_numbers fun row => !row.entries.isEmpty,
      formed.exists_row_iff (fun row => (!row.entries.isEmpty) = true) Bool.false_ne_true]
    simp only [← listed, Bool.not_eq_true', List.isEmpty_eq_false_iff_exists_mem]
  · exact Draft.ascending_numbers (fun row => !row.entries.isEmpty) draft.rows
  · intro entry row
    rw [Draft.indicesWith, Draft.mem_numbers (DraftRow.contains · entry),
      formed.exists_row_iff (DraftRow.contains · entry = true) Bool.false_ne_true, held]
  · intro entry
    exact Draft.ascending_numbers (DraftRow.contains · entry) draft.rows
  · rw [Draft.pendingErasures]
    apply Draft.length_flatMap_eq_card
    · exact fun row _ => row.erased.nodup_toList
    · rintro ⟨number, entry⟩
      rw [← follows.pending]
      exact (formed.exists_row_iff (entry ∈ DraftRow.erased ·) (SortedSet.not_mem_empty entry)
        number).symm
  · rw [formed.counted, Draft.countCells, ← List.length_map Cell.entry, List.map_flatMap]
    apply Draft.length_flatMap_eq_card
    · intro row member
      exact List.pairwise_map.2 (formed.rows row (List.mem_of_mem_take member)).distinct_cells
    · rintro ⟨number, entry⟩
      rw [Finset.mem_filter, isWritten, ← follows.written, ← DraftRow.mem_entries_cells,
        ← formed.exists_row_iff (entry ∈ List.map Cell.entry ·.cells) List.not_mem_nil,
        List.getElem?_take]
      split
      next exclusive => simp [exclusive]
      next other => simp [other]

variable {changes : List (Change τ)}

theorem Follows.written?_eq (follows : Follows before draft (Replay.epoch before changes))
    (row : Nat) (entry : UInt64) :
    (draft.row row).written? entry = lastValue? changes (row, entry) :=
  (follows.written row entry).trans (Replay.epoch_keys before changes (row, entry)).1

theorem Follows.mem_keysWritten (follows : Follows before draft (Replay.epoch before changes))
    (row : Nat) (entry : UInt64) :
    (row, entry) ∈ keysWritten changes ↔ ∃ value, (draft.row row).written? entry = some value := by
  rw [mem_keysWritten_iff, follows.written?_eq]

/-- A draft shows the keys that the changes write and those that they erase last. -/
theorem Follows.showsKeys_epoch (follows : Follows before draft (Replay.epoch before changes)) :
    draft.ShowsKeys (keysWritten changes) (keysErased changes) := by
  have replayed := Replay.epoch_keys before changes
  have erased : (Replay.epoch before changes).pending = keysErased changes := by
    ext key
    exact (replayed key).2
  rw [← erased]
  apply follows.showsKeys
  intro key
  rw [(replayed key).1, mem_keysWritten_iff]

/-- Later changes are made on what earlier ones leave. -/
theorem Draft.changeAll_append (draft : Draft τ) (changes later : List (Change τ)) :
    draft.changeAll (changes ++ later) = draft.changeAll changes >>= (·.changeAll later) :=
  List.foldlM_append

theorem Draft.changeAll_concat (draft : Draft τ) (changes : List (Change τ)) (change : Change τ) :
    draft.changeAll (changes ++ [change]) = draft.changeAll changes >>= (·.change change) := by
  rw [changeAll_append]
  simp only [changeAll, List.foldlM_cons, List.foldlM_nil, bind_pure]

/-- A draft that comes of a fresh one has its shape and follows the replay of the changes. -/
theorem Draft.Fresh.made {layout : Layout} {numSlots maxEntries : Nat} {fresh : Draft τ}
    (isFresh : fresh.Fresh layout numSlots maxEntries) (made : fresh.changeAll changes = .ok draft)
    (before : Key → Option τ) :
    draft.layout = layout ∧ draft.numSlots = numSlots ∧ draft.maxEntries = maxEntries ∧
      Follows before draft (Replay.epoch before changes) := by
  obtain ⟨shape, follows⟩ := (isFresh.follows before).of_changeAll made
  exact ⟨shape.layout.trans isFresh.layout, shape.numSlots.trans isFresh.numSlots,
    shape.maxEntries.trans isFresh.maxEntries, follows⟩

/-- Whatever is called for, a draft shows the keys written without those erased last.  An update of a
written key starts from the value last written to it, erased since or not.  A call is refused for its
row, then for its entry, and then leaves the draft as it was; no other call is refused. -/
theorem Draft.calls_refine_keySets {memory : Memory} {layout : Layout} {numSlots maxEntries : Nat}
    {fresh : Draft τ} (created : Draft.create memory layout numSlots maxEntries = .ok fresh)
    (narrow : maxEntries ≤ maxRowLength) (calls : List (Change τ)) :
    let draft := (fresh.callAll calls).2
    let made := fresh.succeeding calls
    draft.layout = layout ∧
    draft.ShowsKeys (keysWritten made) (keysErased made) ∧
    (∀ key ∈ keysWritten made, ∃ value, lastValue? made key = some value ∧
      ∀ change, (draft.call (.update key.1 key.2 change)).1 = .ok (some (change value))) ∧
    (∀ change : Change τ,
      match change.refusal? layout maxEntries with
      | some error => draft.call change = (.error error, draft)
      | none => ∃ reported after, draft.call change = (.ok reported, after)) ∧
    draft.checkInvariants = .ok () := by
  intro draft made
  have isFresh := Draft.create_fresh created
  have freshNarrow : fresh.maxEntries ≤ maxRowLength := isFresh.maxEntries ▸ narrow
  obtain ⟨shape, follows⟩ := (isFresh.follows fun _ => none).callAll freshNarrow calls
  change Follows _ draft (Replay.epoch (fun _ => none) made) at follows
  have sameLayout : draft.layout = layout := shape.layout.trans isFresh.layout
  have sameWidth : draft.maxEntries = maxEntries := shape.maxEntries.trans isFresh.maxEntries
  have replayed := Replay.epoch_keys (fun _ => none) made
  have erased : (Replay.epoch (fun _ => none) made).pending = keysErased made := by
    ext key
    exact (replayed key).2
  have step := follows.call (sameWidth ▸ narrow)
  refine ⟨sameLayout, ?_, ?_, ?_, follows.formed.checkInvariants⟩
  · rw [← erased]
    apply follows.showsKeys
    intro key
    rw [(replayed key).1, mem_keysWritten_iff]
  · rintro ⟨row, entry⟩ member
    obtain ⟨value, held⟩ := mem_keysWritten_iff.1 member
    refine ⟨value, held, fun change => ?_⟩
    have written : (draft.row row).written? entry = some value := by
      rw [follows.written, (replayed _).1, held]
    have accepted : (Change.update row entry change).refusal? draft.layout draft.maxEntries = none :=
      Change.refusal?_eq_none_iff.2 (follows.formed.inside written)
    have called := step (.update row entry change)
    rw [accepted] at called
    obtain ⟨after, called, _⟩ := called
    rw [called, Replay.report?, (replayed _).1, held]
    rfl
  · intro change
    have called := step change
    rw [sameLayout, sameWidth] at called
    split
    next error refused => simpa only [refused] using called
    next accepted =>
      simp only [accepted] at called
      obtain ⟨after, called, _⟩ := called
      exact ⟨_, after, called⟩

/-- Calls on an exclusive row and a ghost row: a value that spills over, a value erased and written
again, an erasure of nothing, and two calls outside. -/
def mixedCalls : List (Change Nat) :=
  [.set 0 2 7, .set 0 1 8, .update 1 0 (· + 1), .erase 0 2, .set 2 0 5, .update 0 2 (· + 2),
    .erase 0 1, .erase 0 3, .erase 1 2]

theorem Draft.calls_refine_keySets_mixedCalls :
    let memory : Memory := .ofElementBytes 8
    let layout : Layout := { exclusive := 1, ghost := 1 }
    ∃ fresh, Draft.create memory layout 1 3 = .ok fresh ∧
      let draft := (fresh.callAll mixedCalls).2
      draft.ShowsKeys {(0, 1), (0, 2), (1, 0)} {(0, 1), (1, 2)} ∧
      (draft.call (.update 0 2 (· + 1))).1 = .ok (some 10) ∧
      draft.call (.set 2 0 5) = (.error (.rowOutOfBounds 2 2), draft) ∧
      draft.checkInvariants = .ok () := by
  intro memory layout
  let fresh : Draft Nat := .empty layout 1 3
  have created : Draft.create memory layout 1 3 = .ok fresh := rfl
  obtain ⟨_, shows, values, refusals, checked⟩ :=
    Draft.calls_refine_keySets created (by decide) mixedCalls
  have written : keysWritten (fresh.succeeding mixedCalls) = {(0, 1), (0, 2), (1, 0)} := by
    decide +kernel
  have erased : keysErased (fresh.succeeding mixedCalls) = {(0, 1), (1, 2)} := by decide +kernel
  have last : lastValue? (fresh.succeeding mixedCalls) (0, 2) = some 9 := by decide +kernel
  rw [written, erased] at shows
  obtain ⟨value, held, updates⟩ := values (0, 2) (by rw [written]; decide)
  have same : value = 9 := Option.some.inj (held.symm.trans last)
  subst same
  exact ⟨fresh, created, shows, updates (· + 1), refusals (.set 2 0 5), checked⟩

end Showing

end Subdomain

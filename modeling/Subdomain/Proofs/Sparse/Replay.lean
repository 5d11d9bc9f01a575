import Mathlib.Data.Finset.Card
import Subdomain.Proofs.Sparse.Commit
import Subdomain.Proofs.Sparse.Contents

/-!
# Commits replay their changes

The epochs of a store refine a finite map: the changes of every epoch, replayed on the map one by one
in the order in which they were made, give what the store shows after its commit.  The map remembers
of the epoch under way what it last wrote to each key, since a value that is erased before the commit
stays in the draft and is found there by the next update.
-/

namespace Subdomain

/-- One change that an epoch makes. -/
inductive Change (τ : Type) where
  | set (row : Nat) (entry : UInt64) (value : τ)
  /-- Change a value in place, starting from the default if the epoch has not written it. -/
  | update (row : Nat) (entry : UInt64) (change : τ → τ)
  | erase (row : Nat) (entry : UInt64)

namespace Change

variable {τ : Type}

/-- The key that is changed. -/
def key : Change τ → Key
  | .set row entry _ | .update row entry _ | .erase row entry => (row, entry)

/-- Whether the key lies in the layout and below the row width. -/
def Inside (layout : Layout) (maxEntries : Nat) (change : Change τ) : Prop :=
  change.key.1 < layout.numRows ∧ change.key.2.toNat < maxEntries

end Change

namespace Draft

variable {τ : Type} [Inhabited τ]

/-- Make one change. -/
def change (draft : Draft τ) : Change τ → Except Error (Draft τ)
  | .set row entry value => draft.set row entry value
  | .update row entry change => do return (← draft.upsert row entry change).2
  | .erase row entry => draft.erase row entry

/-- Make changes in turn. -/
def changeAll (draft : Draft τ) (changes : List (Change τ)) : Except Error (Draft τ) :=
  changes.foldlM Draft.change draft

omit [Inhabited τ] in
/-- Whether a change finds room in the draft.  An erasure needs none. -/
def HasRoom (draft : Draft τ) : Change τ → Prop
  | .set row entry _ | .update row entry _ => (draft.row row).HasRoom draft.numSlots entry
  | .erase .. => True

theorem WellFormed.hasRoom {draft : Draft τ} (formed : draft.WellFormed)
    (narrow : draft.maxEntries ≤ maxRowLength) {change : Change τ}
    (inside : change.Inside draft.layout draft.maxEntries) : draft.HasRoom change := by
  cases change with
  | set row entry _ | update row entry _ => exact (formed.row row).hasRoom inside.2 narrow
  | erase row entry => exact trivial

/-- A change that finds no room is a defect. -/
theorem change_of_not_hasRoom {draft : Draft τ} (formed : draft.WellFormed) {change : Change τ}
    (inside : change.Inside draft.layout draft.maxEntries) (noRoom : ¬ draft.HasRoom change) :
    draft.change change = .error (.defect .slotCountOverflow) := by
  cases change with
  | set row entry value =>
      have refused : draft.upsert row entry (fun _ => value) = _ :=
        upsert_of_not_hasRoom formed inside.1 inside.2 noRoom _
      rw [Draft.change, Draft.set, refused]
      rfl
  | update row entry alter =>
      have refused : draft.upsert row entry alter = _ :=
        upsert_of_not_hasRoom formed inside.1 inside.2 noRoom _
      rw [Draft.change, refused]
      rfl
  | erase row entry => exact absurd trivial noRoom

end Draft

/-- A map under replay. -/
structure Replay (τ : Type) where
  contents : Key → Option τ
  /-- What the epoch under way wrote to each key last, erased since or not. -/
  written : Key → Option τ := fun _ => none
  /-- The keys that the epoch erased and has not written since. -/
  pending : Finset Key := ∅
  /-- The rows that the epoch has changed a key of. -/
  rows : Finset Nat := ∅

namespace Replay

variable {τ : Type}

/-- Write a value. -/
def write (replay : Replay τ) (key : Key) (value : τ) : Replay τ where
  contents := Function.update replay.contents key (some value)
  written := Function.update replay.written key (some value)
  pending := replay.pending.erase key
  rows := insert key.1 replay.rows

/-- Replay one change. -/
def step [Inhabited τ] (replay : Replay τ) : Change τ → Replay τ
  | .set row entry value => replay.write (row, entry) value
  | .update row entry change =>
      replay.write (row, entry) (change ((replay.written (row, entry)).getD default))
  | .erase row entry => { replay with
      contents := Function.update replay.contents (row, entry) none
      pending := insert (row, entry) replay.pending
      rows := insert row replay.rows }

/-- Replay the changes of one epoch. -/
def epoch [Inhabited τ] (contents : Key → Option τ) (changes : List (Change τ)) : Replay τ :=
  changes.foldl step { contents }

/-- Replay the changes of all epochs. -/
def run [Inhabited τ] (contents : Key → Option τ) : List (List (Change τ)) → Key → Option τ
  | [] => contents
  | changes :: rest => run (epoch contents changes).contents rest

/-- The rows that a commit has to merge: all exclusive rows, and the others that the epoch changed a
key of. -/
def rowsMerged (layout : Layout) (replay : Replay τ) : Nat :=
  layout.exclusive + (replay.rows.filter (layout.exclusive ≤ ·)).card

/-- The pending keys that were there before the epoch or that it wrote. -/
def erased (before : Key → Option τ) (replay : Replay τ) : Nat :=
  (replay.pending.filter fun key => (before key).isSome || (replay.written key).isSome).card

/-- The rows merged and the cells erased by the commit of each epoch. -/
def counts [Inhabited τ] (layout : Layout) (contents : Key → Option τ) :
    List (List (Change τ)) → List (Nat × Nat)
  | [] => []
  | changes :: rest =>
      let replay := epoch contents changes
      (replay.rowsMerged layout, replay.erased contents) :: counts layout replay.contents rest

end Replay

/-! ## A draft follows the replay of its changes -/

section Following

variable {τ : Type} [Inhabited τ]

/-- A draft holds what the changes replayed so far have written and erased since `before`. -/
structure Follows (before : Key → Option τ) (draft : Draft τ) (replay : Replay τ) : Prop where
  formed : draft.WellFormed
  written : ∀ row entry, (draft.row row).written? entry = replay.written (row, entry)
  pending : ∀ row entry, entry ∈ (draft.row row).erased ↔ (row, entry) ∈ replay.pending
  rows : ∀ row, row ∈ replay.rows ↔
    ∃ entry, replay.written (row, entry) ≠ none ∨ (row, entry) ∈ replay.pending
  contents : ∀ key, replay.contents key =
    if key ∈ replay.pending then none else (replay.written key).or (before key)

omit [Inhabited τ] in
theorem Draft.Fresh.follows {layout : Layout} {numSlots maxEntries : Nat} {draft : Draft τ}
    (fresh : draft.Fresh layout numSlots maxEntries) (before : Key → Option τ) :
    Follows before draft { contents := before } where
  formed := fresh.formed
  written := fun row entry => by rw [fresh.row, DraftRow.written?_empty]
  pending := fun row entry => by simp [fresh.row]
  rows := fun row => by simp
  contents := fun key => by simp

variable {before : Key → Option τ} {draft : Draft τ} {replay : Replay τ}

omit [Inhabited τ] in
/-- A write to the draft is a write to the replay. -/
theorem Follows.write (follows : Follows before draft replay) {row : Nat} {entry : UInt64}
    {value : τ} {changed : DraftRow τ} {after : Draft τ}
    (change : Draft.Changed row draft changed after)
    (upserted : DraftRow.Upserted draft.numSlots draft.maxEntries entry value (draft.row row)
      changed) :
    Follows before after (replay.write (row, entry) value) where
  formed := change.formed
  written := fun other column => by
    rw [change.row]
    simp only [Replay.write, Function.update_apply]
    by_cases here : row = other
    · subst here
      rw [if_pos rfl, upserted.written?, follows.written]
      simp [eq_comm]
    · have elsewhere : (other, column) ≠ (row, entry) := fun same => here (Prod.mk.inj same).1.symm
      rw [if_neg here, if_neg elsewhere, follows.written]
  pending := fun other column => by
    rw [change.row, Replay.write, Finset.mem_erase]
    by_cases here : row = other
    · subst here
      rw [if_pos rfl, upserted.erased, SortedSet.mem_filter, follows.pending]
      simp [and_comm]
    · have elsewhere : (other, column) ≠ (row, entry) := fun same => here (Prod.mk.inj same).1.symm
      rw [if_neg here, follows.pending]
      simp [elsewhere]
  rows := fun other => by
    rw [Replay.write, Finset.mem_insert, follows.rows]
    constructor
    · rintro (rfl | ⟨column, changed⟩)
      · exact ⟨entry, .inl (by simp)⟩
      · by_cases here : (other, column) = (row, entry)
        · exact ⟨column, .inl (by simp [here])⟩
        · refine ⟨column, ?_⟩
          simpa [Function.update_apply, here] using changed
    · rintro ⟨column, changed⟩
      by_cases here : (other, column) = (row, entry)
      · exact .inl (Prod.mk.inj here).1
      · refine .inr ⟨column, ?_⟩
        simpa [Function.update_apply, here] using changed
  contents := fun key => by
    simp only [Replay.write, Function.update_apply, Finset.mem_erase]
    by_cases here : key = (row, entry)
    · simp [here]
    · simp [here, follows.contents]

/-- An erasure noted in the draft is an erasure of the replay. -/
theorem Follows.erase (follows : Follows before draft replay) {row : Nat} {entry : UInt64}
    {after : Draft τ} (change : Draft.Changed row draft ((draft.row row).erase entry) after) :
    Follows before after (replay.step (.erase row entry)) where
  formed := change.formed
  written := fun other column => by
    rw [change.row]
    by_cases here : row = other
    · subst here
      rw [if_pos rfl]
      exact follows.written row column
    · rw [if_neg here]
      exact follows.written other column
  pending := fun other column => by
    rw [change.row, Replay.step, Finset.mem_insert]
    by_cases here : row = other
    · subst here
      rw [if_pos rfl, DraftRow.erase, SortedSet.mem_insert, follows.pending]
      simp
    · have elsewhere : (other, column) ≠ (row, entry) := fun same => here (Prod.mk.inj same).1.symm
      rw [if_neg here, follows.pending]
      simp [elsewhere]
  rows := fun other => by
    simp only [Replay.step, Finset.mem_insert, follows.rows]
    constructor
    · rintro (rfl | ⟨column, changed⟩)
      · exact ⟨entry, .inr (.inl rfl)⟩
      · exact ⟨column, changed.imp_right .inr⟩
    · rintro ⟨column, written | here | pending⟩
      · exact .inr ⟨column, .inl written⟩
      · exact .inl (Prod.mk.inj here).1
      · exact .inr ⟨column, .inr pending⟩
  contents := fun key => by
    simp only [Replay.step, Function.update_apply, Finset.mem_insert]
    by_cases here : key = (row, entry)
    · simp [here]
    · simp [here, follows.contents]

omit [Inhabited τ] in
theorem Draft.inside_of_check {row : Nat} {entry : UInt64}
    (accepted : draft.check row entry = .ok ()) :
    row < draft.layout.numRows ∧ entry.toNat < draft.maxEntries := by
  simp only [Draft.check] at accepted
  obtain ⟨⟨⟩, inLayout, accepted⟩ := bind_eq_ok.1 accepted
  refine ⟨?_, ?_⟩
  · by_contra outside
    rw [Layout.checkRow, if_neg outside] at inLayout
    cases inLayout
  · by_contra outside
    rw [if_pos (Nat.not_lt.1 outside)] at accepted
    cases accepted

/-- A change inside the layout and the row width is made if it finds room, and the draft follows
it. -/
theorem Follows.change_of_hasRoom (follows : Follows before draft replay) {change : Change τ}
    (inside : change.Inside draft.layout draft.maxEntries) (room : draft.HasRoom change) :
    ∃ after, draft.change change = .ok after ∧ after.SameShape draft ∧
      Follows before after (replay.step change) := by
  cases change with
  | set row entry value =>
      have rowInside : row < draft.layout.numRows := inside.1
      have entryInside : entry.toNat < draft.maxEntries := inside.2
      obtain ⟨changed, after, done, change, upserted⟩ :=
        Draft.upsert_changed follows.formed rowInside entryInside room fun _ => value
      refine ⟨after, ?_, change.shape, follows.write change upserted⟩
      rw [Draft.change, Draft.set, done]
      rfl
  | update row entry alter =>
      have rowInside : row < draft.layout.numRows := inside.1
      have entryInside : entry.toNat < draft.maxEntries := inside.2
      obtain ⟨changed, after, done, change, upserted⟩ :=
        Draft.upsert_changed follows.formed rowInside entryInside room alter
      refine ⟨after, ?_, change.shape, ?_⟩
      · rw [Draft.change, done]
        rfl
      · rw [Replay.step, ← follows.written]
        exact follows.write change upserted
  | erase row entry =>
      have rowInside : row < draft.layout.numRows := inside.1
      have entryInside : entry.toNat < draft.maxEntries := inside.2
      obtain ⟨after, done, change⟩ := Draft.erase_changed follows.formed rowInside entryInside
      exact ⟨after, done, change.shape, follows.erase change⟩

/-- Every row that can be described has room for a change below its width. -/
theorem Follows.change (follows : Follows before draft replay)
    (narrow : draft.maxEntries ≤ maxRowLength) {change : Change τ}
    (inside : change.Inside draft.layout draft.maxEntries) :
    ∃ after, draft.change change = .ok after ∧ after.SameShape draft ∧
      Follows before after (replay.step change) :=
  follows.change_of_hasRoom inside (follows.formed.hasRoom narrow inside)

/-- A change that is made lies inside the layout and the row width. -/
theorem Draft.inside_of_change {change : Change τ} {after : Draft τ}
    (done : draft.change change = .ok after) :
    change.Inside draft.layout draft.maxEntries := by
  cases change with
  | set row entry value =>
      obtain ⟨_, done, _⟩ := bind_eq_ok.1 done
      obtain ⟨⟨⟩, accepted, _⟩ := bind_eq_ok.1 done
      exact inside_of_check accepted
  | update row entry change =>
      obtain ⟨_, done, _⟩ := bind_eq_ok.1 done
      obtain ⟨⟨⟩, accepted, _⟩ := bind_eq_ok.1 done
      exact inside_of_check accepted
  | erase row entry =>
      obtain ⟨⟨⟩, accepted, _⟩ := bind_eq_ok.1 done
      exact inside_of_check accepted

theorem Follows.changeAll (follows : Follows before draft replay)
    (narrow : draft.maxEntries ≤ maxRowLength) {changes : List (Change τ)}
    (inside : ∀ change ∈ changes, change.Inside draft.layout draft.maxEntries) :
    ∃ after, draft.changeAll changes = .ok after ∧ after.SameShape draft ∧
      Follows before after (changes.foldl Replay.step replay) := by
  induction changes generalizing draft replay with
  | nil => exact ⟨draft, rfl, .refl draft, follows⟩
  | cons change changes ih =>
      obtain ⟨next, done, shape, follows⟩ :=
        follows.change narrow (inside change List.mem_cons_self)
      obtain ⟨after, rest, restShape, follows⟩ := ih follows (shape.maxEntries ▸ narrow)
        fun other member => shape.layout ▸ shape.maxEntries ▸
          inside other (List.mem_cons_of_mem _ member)
      refine ⟨after, ?_, restShape.trans shape, follows⟩
      rw [Draft.changeAll, List.foldlM_cons, done]
      exact rest

/-- A change that is made found room inside, so the draft follows it. -/
theorem Follows.of_change (follows : Follows before draft replay) {change : Change τ}
    {after : Draft τ} (made : draft.change change = .ok after) :
    after.SameShape draft ∧ Follows before after (replay.step change) := by
  have inside := Draft.inside_of_change made
  by_cases room : draft.HasRoom change
  · obtain ⟨same, remade, followed⟩ := follows.change_of_hasRoom inside room
    rw [made] at remade
    cases remade
    exact followed
  · rw [Draft.change_of_not_hasRoom follows.formed inside room] at made
    cases made

/-- A draft follows the changes that are made. -/
theorem Follows.of_changeAll (follows : Follows before draft replay) {changes : List (Change τ)}
    {after : Draft τ} (done : draft.changeAll changes = .ok after) :
    after.SameShape draft ∧ Follows before after (changes.foldl Replay.step replay) := by
  induction changes generalizing draft replay with
  | nil =>
      cases done
      exact ⟨.refl _, follows⟩
  | cons change changes ih =>
      rw [Draft.changeAll, List.foldlM_cons] at done
      obtain ⟨next, made, done⟩ := bind_eq_ok.1 done
      obtain ⟨shape, follows⟩ := follows.of_change made
      obtain ⟨restShape, follows⟩ := ih follows done
      exact ⟨restShape.trans shape, follows⟩

omit [Inhabited τ] in
/-- A commit has to merge the rows with a cell written or an erasure pending. -/
theorem DraftRow.isPending_iff (row : DraftRow τ) :
    row.isPending = true ↔ ∃ entry, row.written? entry ≠ none ∨ entry ∈ row.erased := by
  have touched : row.isTouched = true ↔ ∃ entry, row.written? entry ≠ none := by
    rw [DraftRow.isTouched, Bool.not_eq_true', List.isEmpty_eq_false_iff]
    constructor
    · intro some
      obtain ⟨cell, rest, equal⟩ := List.exists_cons_of_ne_nil some
      refine ⟨cell.entry, fun absent => ?_⟩
      exact Cell.value?_eq_none_iff.1 absent cell (equal ▸ List.mem_cons_self) rfl
    · rintro ⟨entry, present⟩ nothing
      rw [DraftRow.written?, nothing] at present
      exact present rfl
  have erased : (!row.erased.isEmpty) = true ↔ ∃ entry, entry ∈ row.erased := by
    rw [Bool.not_eq_true', ← Bool.not_eq_true, SortedSet.isEmpty_iff]
    simp
  rw [DraftRow.isPending, Bool.or_eq_true, touched, erased, exists_or]

omit [Inhabited τ] in
theorem Follows.isPending_iff (follows : Follows before draft replay) (row : Nat) :
    (draft.row row).isPending = true ↔ row ∈ replay.rows := by
  simp only [DraftRow.isPending_iff, follows.rows, follows.written, follows.pending]

end Following

end Subdomain

import Subdomain.Proofs.Sparse.Attempts
import Subdomain.Proofs.Sparse.KeySets

/-!
# Updates of entries that a draft does not show

A draft does not show an entry that was never written, or that was erased since it was written last.  An
update starts from the default in the first case only: an erased value stays in its slot, or where it has
spilled over to, and the next update resumes from it.  What the update writes is what a commit leaves.
-/

namespace Subdomain

/-! ## Changes of other keys -/

section Changes

variable {τ : Type} {changes later : List (Change τ)} {key : Key}

theorem lastChange?_append (apart : ∀ change ∈ later, change.key ≠ key) :
    lastChange? (changes ++ later) key = lastChange? changes key := by
  have none : later.reverse.find? (·.key == key) = none := by
    apply List.find?_eq_none.2
    intro change member
    simpa using apart change (List.mem_reverse.1 member)
  rw [lastChange?, List.reverse_append, List.find?_append, none, Option.none_or, lastChange?]

theorem mem_keysErased_append (apart : ∀ change ∈ later, change.key ≠ key) :
    key ∈ keysErased (changes ++ later) ↔ key ∈ keysErased changes := by
  rw [mem_keysErased, mem_keysErased, lastChange?_append apart]

theorem lastValue?_append [Inhabited τ] (apart : ∀ change ∈ later, change.key ≠ key) :
    lastValue? (changes ++ later) key = lastValue? changes key := by
  have none : later.filter (·.key == key) = [] := by
    apply List.filter_eq_nil_iff.2
    intro change member
    simpa using apart change member
  rw [lastValue?, List.filter_append, none, List.append_nil, lastValue?]

/-- A key that is written and not erased since has its last value in the replayed map. -/
theorem Replay.contents_of_written [Inhabited τ] {before : Key → Option τ} {draft : Draft τ}
    {value : τ} (follows : Follows before draft (Replay.epoch before changes))
    (written : lastValue? changes key = some value) (kept : key ∉ keysErased changes) :
    (Replay.epoch before changes).contents key = some value := by
  have ⟨isWritten, isPending⟩ := Replay.epoch_keys before changes key
  rw [follows.contents, if_neg (mt isPending.1 kept), isWritten, written]
  rfl

end Changes

/-! ## Updates of absent entries -/

namespace Draft

variable {τ : Type} [Inhabited τ] {fresh draft : Draft τ} {layout : Layout}
  {numSlots maxEntries : Nat} {changes : List (Change τ)} {row : Nat} {entry : UInt64}

/-- What an update gives when it starts from a value: the value that it makes of it, which the draft shows
from then on, and which every commit leaves unless the entry is changed again. -/
structure UpdatesFrom (draft : Draft τ) (row : Nat) (entry : UInt64) (start : τ) (change : τ → τ)
    (after : Draft τ) : Prop where
  done : draft.upsert row entry change = .ok (change start, after)
  shown : after.contains row entry = true
  committed : ∀ (later : List (Change τ)) (last : Draft τ) (store next : Store τ)
    (memory scratch : Memory) (stats : CommitStats),
    (∀ other ∈ later, other.key ≠ (row, entry)) → after.changeAll later = .ok last →
      store.Reachable → store.commit memory scratch last = .ok (next, stats) →
        next.get? row entry = some (change start)

/-- An entry that a draft does not show was never written, or erased last. -/
theorem unwritten_or_erased_of_not_contains {before : Key → Option τ}
    (follows : Follows before draft (Replay.epoch before changes))
    (absent : draft.contains row entry = false) :
    (row, entry) ∉ keysWritten changes ∨ (row, entry) ∈ keysErased changes := by
  by_contra shown
  rw [not_or, not_not] at shown
  have held := (follows.showsKeys_epoch.contains row entry).2 (Finset.mem_sdiff.2 shown)
  rw [absent] at held
  cases held

/-- A written entry has its place, so another write of it finds room. -/
theorem hasRoom_of_written {before : Key → Option τ}
    (follows : Follows before draft (Replay.epoch before changes))
    (written : (row, entry) ∈ keysWritten changes) : (draft.row row).HasRoom draft.numSlots entry := by
  intro absent free
  obtain ⟨value, held⟩ := (follows.mem_keysWritten row entry).1 written
  rw [(follows.formed.row row).unwritten_of_free absent free] at held
  cases held

/-- A commit leaves what the last change of a key has written. -/
theorem Fresh.get?_commit (isFresh : fresh.Fresh layout numSlots maxEntries)
    (made : fresh.changeAll changes = .ok draft) {value : τ}
    (written : lastValue? changes (row, entry) = some value)
    (kept : (row, entry) ∉ keysErased changes) {store next : Store τ} {memory scratch : Memory}
    {stats : CommitStats} (reachable : store.Reachable)
    (done : store.commit memory scratch draft = .ok (next, stats)) :
    next.get? row entry = some value := by
  obtain ⟨before, represents⟩ := reachable.represents
  obtain ⟨_, _, _, follows⟩ := isFresh.made made before
  have committed := represents.committed follows.formed done
  have after := committed.represents represents follows
  rw [after.shows.get?, Replay.contents_of_written follows written kept]

/-- An update that finds room starts from the value last written, erased since or not. -/
theorem Fresh.updatesFrom (isFresh : fresh.Fresh layout numSlots maxEntries)
    (made : fresh.changeAll changes = .ok draft) (rowInside : row < layout.numRows)
    (entryInside : entry.toNat < maxEntries) (room : (draft.row row).HasRoom draft.numSlots entry)
    (change : τ → τ) :
    ∃ after, draft.UpdatesFrom row entry ((lastValue? changes (row, entry)).getD default) change
      after := by
  obtain ⟨sameLayout, _, sameWidth, follows⟩ := isFresh.made made fun _ => none
  have upsertMade := upsert_changed follows.formed (sameLayout ▸ rowInside)
    (sameWidth ▸ entryInside) room change
  rw [follows.written?_eq] at upsertMade
  obtain ⟨_, after, done, _, _⟩ := upsertMade
  let update : Change τ := .update row entry change
  have here : update.key = (row, entry) := rfl
  have remade : fresh.changeAll (changes ++ [update]) = .ok after := by
    rw [changeAll_concat, made]
    show (do return (← draft.upsert row entry change).2 : Except Error (Draft τ)) = .ok after
    rw [done]
    rfl
  have value : lastValue? (changes ++ [update]) (row, entry) =
      some (change ((lastValue? changes (row, entry)).getD default)) := by
    rw [lastValue?_concat, if_pos here]
    rfl
  have kept : (row, entry) ∉ keysErased (changes ++ [update]) := by
    rw [mem_keysErased_concat, if_pos here]
    exact Bool.false_ne_true.symm
  refine ⟨after, done, ?_, ?_⟩
  · obtain ⟨_, _, _, follows⟩ := isFresh.made remade fun _ => none
    rw [follows.showsKeys_epoch.contains, Finset.mem_sdiff]
    exact ⟨mem_keysWritten_iff.2 ⟨_, value⟩, kept⟩
  · intro later last store next memory scratch stats apart continued reachable committed
    have madeAll : fresh.changeAll (changes ++ [update] ++ later) = .ok last := by
      rw [changeAll_append, remade]
      exact continued
    exact isFresh.get?_commit madeAll ((lastValue?_append apart).trans value)
      (mt (mem_keysErased_append apart).1 kept) reachable committed

/-- An update of an entry that a draft does not show starts from the value last written to the entry in the
epoch, which an erasure leaves where it is, and from the default only if nothing was written.  It fails
only for want of a slot that can be counted, which a written entry does not need.  So an insertion gives
the default exactly if that is the value last written. -/
theorem update_resumes_lastValue {memory : Memory}
    (created : Draft.create memory layout numSlots maxEntries = .ok fresh)
    (made : fresh.changeAll changes = .ok draft) (rowInside : row < layout.numRows)
    (entryInside : entry.toNat < maxEntries) (absent : draft.contains row entry = false) :
    let start := (lastValue? changes (row, entry)).getD default
    ((row, entry) ∉ keysWritten changes ∨ (row, entry) ∈ keysErased changes) ∧
    (∀ change, (∃ after, draft.UpdatesFrom row entry start change after) ∨
      (row, entry) ∉ keysWritten changes ∧ maxRowLength < numSlots ∧
        draft.upsert row entry change = .error (.defect .slotCountOverflow)) ∧
    ((∀ value after, draft.upsert row entry id = .ok (value, after) → value = default) ↔
      start = default) := by
  intro start
  have isFresh := create_fresh created
  obtain ⟨sameLayout, sameSlots, sameWidth, follows⟩ := isFresh.made made fun _ => none
  have outcome : ∀ change, (∃ after, draft.UpdatesFrom row entry start change after) ∨
      (row, entry) ∉ keysWritten changes ∧ maxRowLength < numSlots ∧
        draft.upsert row entry change = .error (.defect .slotCountOverflow) := by
    intro change
    by_cases room : (draft.row row).HasRoom draft.numSlots entry
    · exact .inl (isFresh.updatesFrom made rowInside entryInside room change)
    · have unwritten := mt (hasRoom_of_written follows) room
      have refused := upsert_of_not_hasRoom follows.formed (sameLayout ▸ rowInside)
        (sameWidth ▸ entryInside) room change
      simp only [DraftRow.HasRoom, Classical.not_imp, Nat.not_lt] at room
      obtain ⟨_, free, uncountable⟩ := room
      exact .inr ⟨unwritten, sameSlots ▸ uncountable.trans_lt free, refused⟩
  refine ⟨unwritten_or_erased_of_not_contains follows absent, outcome, ?_⟩
  constructor
  · intro givesDefault
    cases outcome id with
    | inl updated =>
        obtain ⟨after, updated⟩ := updated
        exact givesDefault start after updated.done
    | inr overflow =>
        have unwritten := mt mem_keysWritten_iff.2 overflow.1
        have nothing : lastValue? changes (row, entry) = none :=
          Option.eq_none_iff_forall_ne_some.2 fun value held => unwritten ⟨value, held⟩
        exact congrArg (·.getD default) nothing
  · intro isDefault value after done
    cases outcome id with
    | inl updated =>
        obtain ⟨_, updated⟩ := updated
        rw [updated.done] at done
        cases done
        exact isDefault
    | inr overflow =>
        rw [overflow.2.2] at done
        cases done

/-- A value in the only slot of a row and one that has spilled over, both erased. -/
def erasedCells : List (Change Nat) := [.set 0 2 5, .set 0 1 7, .erase 0 2, .erase 0 1]

/-- Both values are resumed, the one in the slot and the one that has spilled over. -/
theorem update_resumes_lastValue_erasedCells :
    let memory : Memory := .ofElementBytes 8
    ∃ fresh draft : Draft Nat, Draft.create memory { exclusive := 1 } 1 3 = .ok fresh ∧
      fresh.changeAll erasedCells = .ok draft ∧
      (∃ after, draft.UpdatesFrom 0 2 5 (· + 1) after) ∧
      ∃ after, draft.UpdatesFrom 0 1 7 (· + 1) after := by
  intro memory
  let fresh : Draft Nat := .empty { exclusive := 1 } 1 3
  let draft : Draft Nat :=
    { fresh with
      rows := [{ slots := [⟨2, 5⟩], spare := [⟨1, 7⟩], erased := .ofList [1, 2] }]
      exclusiveInsertions := 2 }
  have created : Draft.create memory { exclusive := 1 } 1 3 = .ok fresh := rfl
  have made : fresh.changeAll erasedCells = .ok draft := by decide +kernel
  have oneSlot : ¬ maxRowLength < 1 := by decide
  have second : draft.contains 0 2 = false := by decide +kernel
  have first : draft.contains 0 1 = false := by decide +kernel
  obtain ⟨_, slotted, _⟩ := update_resumes_lastValue created made (by decide) (by decide) second
  obtain ⟨_, spilled, _⟩ := update_resumes_lastValue created made (by decide) (by decide) first
  exact ⟨fresh, draft, created, made,
    (slotted (· + 1)).resolve_right fun refused => oneSlot refused.2.1,
    (spilled (· + 1)).resolve_right fun refused => oneSlot refused.2.1⟩

/-- One added to an erased seven gives eight, not one, and the eight is committed. -/
theorem update_keeps_erasedCells :
    let memory : Memory := .ofElementBytes 8
    (do
      let fresh ← Draft.create memory { exclusive := 1 } 1 3
      let draft ← fresh.changeAll erasedCells
      let (sum, after) ← draft.upsert 0 1 (· + 1)
      let store ← Store.create memory { exclusive := 1 } 3 1
      let (next, _) ← store.commit memory memory after
      return (draft.contains 0 1, sum, next.get? 0 1) : Except Error (Bool × Nat × Option Nat)) =
      .ok (false, 8, some 8) := by
  decide +kernel

end Draft

end Subdomain

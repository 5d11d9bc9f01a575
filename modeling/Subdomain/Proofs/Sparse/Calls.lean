import Subdomain.Proofs.Sparse.Replay

/-!
# Calls in place

A draft is changed in place, one call after the other, and a call may be refused.  The program of this
module makes the steps of a call in their order and keeps the draft as it stands where the call stops:
an erasure is cancelled before the entry is looked for, so a call that stopped between the two would
leave a trace.  None does.  A call is refused for its row, then for its entry, and for nothing else;
every other call is a change of the draft and is followed by the replay.
-/

namespace Subdomain

namespace Change

variable {τ : Type}

/-- Why a change is refused: its row first, then its entry. -/
def refusal? (layout : Layout) (maxEntries : Nat) (change : Change τ) : Option Error :=
  if layout.numRows ≤ change.key.1 then some (.rowOutOfBounds change.key.1 layout.numRows)
  else if maxEntries ≤ change.key.2.toNat then some (.entryOutOfBounds change.key.2 maxEntries)
  else none

theorem refusal?_eq_none_iff {layout : Layout} {maxEntries : Nat} {change : Change τ} :
    change.refusal? layout maxEntries = none ↔ change.Inside layout maxEntries := by
  rw [refusal?, Inside]
  split
  next rowOutside => simp [rowOutside]
  next rowInside =>
    split
    next entryOutside => simp [entryOutside]
    next entryInside => simp [Nat.not_le.1 rowInside, Nat.not_le.1 entryInside]

end Change

namespace DraftRow

variable {τ : Type}

/-- Cancel a pending erasure. -/
def cancel (row : DraftRow τ) (entry : UInt64) : DraftRow τ :=
  { row with erased := row.erased.filter (· != entry) }

/-- An erasure may be cancelled beforehand. -/
theorem upsert_cancel [Inhabited τ] (numSlots : Nat) (entry : UInt64) (change : τ → τ)
    (row : DraftRow τ) :
    (row.cancel entry).upsert numSlots entry change = row.upsert numSlots entry change := by
  have twice : (row.erased.filter (· != entry)).filter (· != entry) =
      row.erased.filter (· != entry) := by
    ext other
    simp
  simp only [upsert, cancel, twice]

end DraftRow

namespace Draft

variable {τ : Type}

/-! ## Calls as programs -/

theorem record_record (draft : Draft τ) (number : Nat) (first second : DraftRow τ) (added : Bool) :
    (draft.record number first false).record number second added =
      draft.record number second added := by
  simp [record]

variable [Inhabited τ]

/-- Change the value at an entry in place: refuse a key outside, cancel a pending erasure, and only
then look for the entry. -/
def upsertInPlace (row : Nat) (entry : UInt64) (change : τ → τ) :
    ExceptT Error (StateM (Draft τ)) τ := do
  let draft ← get
  draft.check row entry
  modify fun draft => draft.record row ((draft.row row).cancel entry) false
  let draft ← get
  let (value, changed, added) ← (draft.row row).upsert draft.numSlots entry change
  modify fun draft => draft.record row changed added
  return value

/-- Note in place that an entry is to be removed at commit. -/
def eraseInPlace (row : Nat) (entry : UInt64) : ExceptT Error (StateM (Draft τ)) Unit := do
  let draft ← get
  draft.check row entry
  modify fun draft => draft.record row ((draft.row row).erase entry) false

/-- Make one change in place.  Only an update reports a value, the new one. -/
def callInPlace : Change τ → ExceptT Error (StateM (Draft τ)) (Option τ)
  | .set row entry value => (fun _ => none) <$> upsertInPlace row entry fun _ => value
  | .update row entry change => some <$> upsertInPlace row entry change
  | .erase row entry => (fun _ => none) <$> eraseInPlace row entry

/-- What a call reports, and the draft that it leaves. -/
def call (draft : Draft τ) (change : Change τ) : Except Error (Option τ) × Draft τ :=
  (callInPlace change).run.run draft

/-- Calls one after the other: what each reports, and the draft that they leave. -/
def callAll (draft : Draft τ) : List (Change τ) → List (Except Error (Option τ)) × Draft τ
  | [] => ([], draft)
  | first :: rest =>
      let (outcome, next) := draft.call first
      let (outcomes, last) := next.callAll rest
      (outcome :: outcomes, last)

/-- The changes that are made when all are called for in turn. -/
def succeeding (draft : Draft τ) : List (Change τ) → List (Change τ)
  | [] => []
  | first :: rest =>
      let (outcome, next) := draft.call first
      if outcome.isOk then first :: next.succeeding rest else next.succeeding rest

/-! ## Calls as changes -/

variable {draft : Draft τ}

omit [Inhabited τ] in
theorem check_eq (draft : Draft τ) (change : Change τ) :
    draft.check change.key.1 change.key.2 =
      match change.refusal? draft.layout draft.maxEntries with
      | some error => .error error
      | none => .ok () := by
  rw [Change.refusal?]
  split
  next error refused =>
    split at refused
    next rowOutside =>
      cases refused
      simp only [check, Layout.checkRow, if_neg (Nat.not_lt.2 rowOutside)]
      rfl
    next rowInside =>
      split at refused
      next entryOutside =>
        cases refused
        simp only [check, Layout.checkRow, if_pos (Nat.not_le.1 rowInside), if_pos entryOutside]
        rfl
      next => cases refused
  next accepted =>
    have inside := Change.refusal?_eq_none_iff.1 accepted
    exact check_eq_ok inside.1 inside.2

/-- The steps of an upsert in place, and where each leaves the draft. -/
theorem run_upsertInPlace (draft : Draft τ) (row : Nat) (entry : UInt64) (change : τ → τ) :
    (upsertInPlace row entry change).run.run draft =
      match draft.check row entry with
      | .error error => (.error error, draft)
      | .ok () =>
          let cancelled := draft.record row ((draft.row row).cancel entry) false
          match (cancelled.row row).upsert cancelled.numSlots entry change with
          | .error error => (.error error, cancelled)
          | .ok (value, changed, added) => (.ok value, cancelled.record row changed added) := by
  rw [upsertInPlace, run_get_bind]
  cases draft.check row entry with
  | error error => rfl
  | ok accepted =>
      let cancelled := draft.record row ((draft.row row).cancel entry) false
      show (do
        let draft ← get
        let (value, changed, added) ← (draft.row row).upsert draft.numSlots entry change
        modify fun draft => draft.record row changed added
        return value : ExceptT Error (StateM (Draft τ)) τ).run.run cancelled = _
      rw [run_get_bind]
      dsimp only
      cases (cancelled.row row).upsert cancelled.numSlots entry change with
      | error error => rfl
      | ok result => rfl

/-- An upsert in place does what the upsert of the draft does, if that succeeds. -/
theorem run_upsertInPlace_ok (formed : draft.WellFormed) {row : Nat} {entry : UInt64}
    {change : τ → τ} {value : τ} {after : Draft τ}
    (done : draft.upsert row entry change = .ok (value, after)) :
    (upsertInPlace row entry change).run.run draft = (.ok value, after) := by
  obtain ⟨⟨⟩, accepted, done⟩ := bind_eq_ok.1 done
  obtain ⟨⟨_, changed, added⟩, upserted, done⟩ := bind_eq_ok.1 done
  cases done
  have inside : row < draft.rows.length := formed.length ▸ (inside_of_check accepted).1
  have cancelled : (draft.record row ((draft.row row).cancel entry) false).row row =
      (draft.row row).cancel entry := by
    rw [row_record row row _ _ inside, if_pos rfl]
  have sameUpsert : ((draft.row row).cancel entry).upsert
      (draft.record row ((draft.row row).cancel entry) false).numSlots entry change =
      .ok (value, changed, added) :=
    (DraftRow.upsert_cancel draft.numSlots entry change (draft.row row)).trans upserted
  rw [run_upsertInPlace, accepted]
  dsimp only
  rw [cancelled, sameUpsert]
  dsimp only
  rw [record_record]

omit [Inhabited τ] in
theorem run_eraseInPlace (draft : Draft τ) (row : Nat) (entry : UInt64) :
    (eraseInPlace row entry).run.run draft =
      match draft.check row entry with
      | .error error => (.error error, draft)
      | .ok () => (.ok (), draft.record row ((draft.row row).erase entry) false) := by
  rw [eraseInPlace, run_get_bind]
  cases draft.check row entry with
  | error error => rfl
  | ok accepted => rfl

omit [Inhabited τ] in
theorem run_eraseInPlace_ok {row : Nat} {entry : UInt64} {after : Draft τ}
    (done : draft.erase row entry = .ok after) :
    (eraseInPlace row entry).run.run draft = (.ok (), after) := by
  obtain ⟨⟨⟩, accepted, done⟩ := bind_eq_ok.1 done
  cases done
  rw [run_eraseInPlace, accepted]
  rfl

omit [Inhabited τ] in
/-- A program of which the result is passed on stops where it does. -/
theorem run_map {α β : Type} (report : α → β) (program : ExceptT Error (StateM (Draft τ)) α)
    (draft : Draft τ) :
    (report <$> program).run.run draft =
      ((program.run.run draft).1.map report, (program.run.run draft).2) := by
  rw [ExceptT.run_map, StateT.run_map]
  rfl

/-- A call on a key outside is refused before anything is done. -/
theorem call_refused {change : Change τ} {error : Error}
    (refused : change.refusal? draft.layout draft.maxEntries = some error) :
    draft.call change = (.error error, draft) := by
  have checked := check_eq draft change
  rw [refused] at checked
  cases change with
  | set row entry _ | update row entry _ =>
      change draft.check row entry = .error error at checked
      rw [call, callInPlace, run_map, run_upsertInPlace, checked]
      rfl
  | erase row entry =>
      change draft.check row entry = .error error at checked
      rw [call, callInPlace, run_map, run_eraseInPlace, checked]
      rfl

end Draft

/-! ## Calls and their replay -/

section Calling

variable {τ : Type} [Inhabited τ]

/-- What a change reports when it is made: an update reports what it writes. -/
def Replay.report? (replay : Replay τ) : Change τ → Option τ
  | .update row entry change => some (change ((replay.written (row, entry)).getD default))
  | .set .. | .erase .. => none

variable {before : Key → Option τ} {draft : Draft τ} {replay : Replay τ}

/-- A call is refused without a trace, or reports what the replay does and follows it. -/
theorem Follows.call (follows : Follows before draft replay)
    (narrow : draft.maxEntries ≤ maxRowLength) (change : Change τ) :
    match change.refusal? draft.layout draft.maxEntries with
    | some error => draft.call change = (.error error, draft)
    | none => ∃ after, draft.call change = (.ok (replay.report? change), after) ∧
        after.SameShape draft ∧ Follows before after (replay.step change) := by
  split
  next error refused => exact Draft.call_refused refused
  next accepted =>
    have inside := Change.refusal?_eq_none_iff.1 accepted
    obtain ⟨after, done, shape, followed⟩ := follows.change narrow inside
    refine ⟨after, ?_, shape, followed⟩
    cases change with
    | set row entry value =>
        obtain ⟨next, set, same⟩ := bind_eq_ok.1 done
        cases same
        rw [Draft.call, Draft.callInPlace, Draft.run_map,
          Draft.run_upsertInPlace_ok follows.formed set]
        rfl
    | update row entry alter =>
        have rowInside : row < draft.layout.numRows := inside.1
        have entryInside : entry.toNat < draft.maxEntries := inside.2
        obtain ⟨_, _, upserted, _, _⟩ :=
          Draft.upsert_changed follows.formed rowInside entryInside
            ((follows.formed.row row).hasRoom entryInside narrow) alter
        rw [Draft.change, upserted] at done
        cases done
        rw [Draft.call, Draft.callInPlace, Draft.run_map,
          Draft.run_upsertInPlace_ok follows.formed upserted, follows.written]
        rfl
    | erase row entry =>
        rw [Draft.call, Draft.callInPlace, Draft.run_map, Draft.run_eraseInPlace_ok done]
        rfl

/-- Whatever is called for, the draft follows the calls that succeed: by induction on the calls. -/
theorem Follows.callAll (follows : Follows before draft replay)
    (narrow : draft.maxEntries ≤ maxRowLength) (calls : List (Change τ)) :
    (draft.callAll calls).2.SameShape draft ∧
      Follows before (draft.callAll calls).2 ((draft.succeeding calls).foldl Replay.step replay) := by
  induction calls generalizing draft replay with
  | nil => exact ⟨.refl draft, follows⟩
  | cons first rest ih =>
      have called := follows.call narrow first
      rw [Draft.callAll, Draft.succeeding]
      split at called
      next error _ =>
        rw [called]
        exact ih follows narrow
      next =>
        obtain ⟨next, done, shape, follows⟩ := called
        rw [done]
        obtain ⟨restShape, followed⟩ := ih follows (shape.maxEntries ▸ narrow)
        exact ⟨restShape.trans shape, followed⟩

end Calling

end Subdomain

import Subdomain.Proofs.Sparse.Replay

/-!
# Runs of epochs refine a finite map

One commit takes a store that represents a map to a store that represents the map with the draft's
changes replayed on it.  A run of epochs is an induction on that step.
-/

namespace Subdomain

section Committing

variable {τ : Type} [Inhabited τ] {before : Key → Option τ} {store next : Store τ}
  {draft : Draft τ} {replay : Replay τ} {stats : CommitStats}

namespace Store

theorem Committed.contents (committed : Committed store draft next stats) :
    next.contents = keptRows (store.contents.zip draft.rows) := by
  rw [committed.holds.contents, List.take_append_drop]

/-- A committed row and a draft row meet at every number of the layout. -/
theorem getElem?_pairs (represents : Represents store before) (formed : draft.WellFormed)
    (sameLayout : draft.layout = store.layout) (number : Nat) :
    (store.contents.zip draft.rows)[number]? =
      if number < store.layout.numRows then some (store.cellsOf number, draft.row number)
      else none := by
  have existing := represents.length
  have length : draft.rows.length = store.layout.numRows := sameLayout ▸ formed.length
  split
  · next inside =>
    have left : number < store.contents.length := existing ▸ inside
    have right : number < draft.rows.length := length ▸ inside
    rw [List.getElem?_zip_eq_some]
    simp [Store.cellsOf, Draft.row, left, right]
  · next outside =>
    rw [List.getElem?_eq_none]
    rw [List.length_zip, existing, length]
    omega

/-- Every row after a commit is the row before it merged with the draft's; outside the layout both
are empty. -/
theorem Committed.cellsOf (committed : Committed store draft next stats)
    (represents : Represents store before) (formed : draft.WellFormed) (number : Nat) :
    next.cellsOf number =
      (StagedRow.ofRow (store.cellsOf number) (draft.row number)).kept := by
  have pairs := getElem?_pairs represents formed committed.sameLayout number
  rw [Store.cellsOf, committed.contents, keptRows, List.getElem?_map, pairs]
  split
  · rfl
  · next outside =>
    have outsideDraft : draft.layout.numRows ≤ number :=
      committed.sameLayout ▸ Nat.not_lt.1 outside
    rw [represents.cellsOf_eq_nil (Nat.not_lt.1 outside), formed.row_eq_empty outsideDraft]
    exact (StagedRow.kept_of_not_isPending rfl).symm

/-- The store after a commit represents the replayed map. -/
theorem Committed.represents (committed : Committed store draft next stats)
    (represents : Represents store before) (follows : Follows before draft replay) :
    Represents next replay.contents where
  holds := ⟨_, _, committed.holds⟩
  ascending := fun cells member => by
    obtain ⟨number, inside, located⟩ := List.mem_iff_getElem.1 member
    have row := committed.cellsOf represents follows.formed number
    rw [Store.cellsOf, List.getElem?_eq_getElem inside, located] at row
    rw [Option.getD_some] at row
    rw [row]
    exact StagedRow.ascending_kept (represents.ascending_cellsOf number) (follows.formed.row number)
  below := fun cells member => by
    obtain ⟨number, inside, located⟩ := List.mem_iff_getElem.1 member
    have row := committed.cellsOf represents follows.formed number
    rw [Store.cellsOf, List.getElem?_eq_getElem inside, located] at row
    rw [Option.getD_some] at row
    rw [row, committed.maxEntries]
    refine StagedRow.below_kept (fun cell held => ?_)
      (committed.sameWidth ▸ follows.formed.row number)
    exact represents.below_cellsOf number cell held
  value? := fun number entry => by
    rw [committed.cellsOf represents follows.formed, StagedRow.value?_kept (follows.formed.row number),
      follows.contents, follows.written, represents.value?]
    simp only [follows.pending]
  narrow := committed.maxEntries ▸ represents.narrow
  addressable := committed.addressable

/-! ## What a commit reports -/

omit [Inhabited τ] in
/-- Rows without changes lose nothing, so it does not matter that a commit leaves them out. -/
theorem flatMap_dropped_staged (store : Store τ) (draft : Draft τ) :
    (store.staged draft).flatMap StagedRow.dropped =
      (store.contents.zip draft.rows).flatMap fun pair =>
        (StagedRow.ofRow pair.1 pair.2).dropped := by
  have pending : ∀ (pairs : List (List (Cell τ) × DraftRow τ)) (start : Nat),
      ((pendingRows pairs start).map Prod.snd).flatMap StagedRow.dropped =
      pairs.flatMap fun pair => (StagedRow.ofRow pair.1 pair.2).dropped := by
    intro pairs start
    induction pairs generalizing start with
    | nil => rfl
    | cons pair pairs ih =>
        obtain ⟨existing, row⟩ := pair
        cases changed : row.isPending with
        | false =>
            have nothing : (StagedRow.ofRow existing row).dropped = [] :=
              StagedRow.dropped_of_not_isPending changed
            simp [pendingRows_cons, changed, nothing, ih]
        | true => simp [pendingRows_cons, changed, ih]
  rw [staged, List.flatMap_append, stageExclusive, stageFixed, pending, List.flatMap_map,
    ← List.flatMap_append, List.take_append_drop]

/-- The keys that a commit removes, in row order. -/
def droppedKeys (store : Store τ) (draft : Draft τ) : List Key :=
  (store.contents.zip draft.rows).zipIdx.flatMap fun ((existing, row), number) =>
    (StagedRow.ofRow existing row).dropped.map fun cell => (number, cell.entry)

omit [Inhabited τ] in
theorem length_droppedKeys (store : Store τ) (draft : Draft τ) :
    (store.droppedKeys draft).length = ((store.staged draft).flatMap StagedRow.dropped).length := by
  have keyed : ∀ (pairs : List (List (Cell τ) × DraftRow τ)) (start : Nat),
      ((pairs.zipIdx start).flatMap fun ((existing, row), number) =>
        (StagedRow.ofRow existing row).dropped.map fun cell => (number, cell.entry)).length =
      (pairs.flatMap fun pair => (StagedRow.ofRow pair.1 pair.2).dropped).length := by
    intro pairs start
    induction pairs generalizing start with
    | nil => rfl
    | cons pair pairs ih => simp [ih]
  rw [flatMap_dropped_staged, droppedKeys, keyed]

/-- A pending entry is removed from a merged row that holds it. -/
theorem mem_dropped_iff (represents : Represents store before)
    (follows : Follows before draft replay) (number : Nat) (entry : UInt64) :
    (∃ cell ∈ (StagedRow.ofRow (store.cellsOf number) (draft.row number)).dropped,
        cell.entry = entry) ↔
      (number, entry) ∈ replay.pending ∧
        ((before (number, entry)).isSome || (replay.written (number, entry)).isSome) = true := by
  have value := StagedRow.value?_merged (store.cellsOf number) (follows.formed.row number) entry
  rw [follows.written, represents.value?] at value
  have present : (∃ cell ∈ (StagedRow.ofRow (store.cellsOf number) (draft.row number)).merged,
      cell.entry = entry) ↔
      ((before (number, entry)).isSome || (replay.written (number, entry)).isSome) = true := by
    rw [← not_iff_not, not_exists]
    simp only [not_and, ← Cell.value?_eq_none_iff, value]
    cases replay.written (number, entry) <;> simp
  rw [← present, ← follows.pending]
  simp only [StagedRow.dropped, List.mem_filter, decide_eq_true_eq]
  constructor
  · rintro ⟨cell, ⟨held, erased⟩, rfl⟩
    exact ⟨erased, cell, held, rfl⟩
  · rintro ⟨erased, cell, held, rfl⟩
    exact ⟨cell, ⟨held, erased⟩, rfl⟩

theorem mem_droppedKeys (represents : Represents store before)
    (follows : Follows before draft replay) (sameLayout : draft.layout = store.layout) (key : Key) :
    key ∈ store.droppedKeys draft ↔
      key ∈ replay.pending ∧ ((before key).isSome || (replay.written key).isSome) = true := by
  obtain ⟨number, entry⟩ := key
  rw [← mem_dropped_iff represents follows]
  simp only [droppedKeys, List.mem_flatMap, List.mem_map, Prod.exists, Prod.mk.injEq,
    List.mk_mem_zipIdx_iff_getElem?, getElem?_pairs represents follows.formed sameLayout]
  constructor
  · rintro ⟨existing, row, other, found, cell, held, rfl, rfl⟩
    split at found
    · cases found
      exact ⟨cell, held, rfl⟩
    · cases found
  · rintro ⟨cell, held, rfl⟩
    have inside : number < store.layout.numRows := by
      by_contra outside
      rw [follows.formed.row_eq_empty (sameLayout ▸ Nat.not_lt.1 outside),
        StagedRow.dropped_of_not_isPending rfl] at held
      cases held
    exact ⟨store.cellsOf number, draft.row number, number, if_pos inside, cell, held, rfl, rfl⟩

theorem nodup_droppedKeys (represents : Represents store before)
    (follows : Follows before draft replay) (sameLayout : draft.layout = store.layout) :
    (store.droppedKeys draft).Nodup := by
  refine List.pairwise_flatMap.2 ⟨?_, ?_⟩
  · rintro ⟨⟨existing, row⟩, number⟩ member
    have found := List.mk_mem_zipIdx_iff_getElem?.1 member
    rw [getElem?_pairs represents follows.formed sameLayout] at found
    split at found
    · cases found
      have ascending := StagedRow.ascending_merged (represents.ascending_cellsOf number)
        (follows.formed.row number)
      refine List.pairwise_map.2 ((ascending.distinct.filter _).imp fun apart same => ?_)
      exact apart (Prod.mk.inj same).2
    · cases found
  · refine (pairwise_zipIdx _ 0).imp fun less first inFirst second inSecond same => ?_
    obtain ⟨_, _, rfl⟩ := List.mem_map.1 inFirst
    obtain ⟨_, _, rfl⟩ := List.mem_map.1 inSecond
    exact Nat.ne_of_lt less (Prod.mk.inj same).1

/-- A commit reports as erased the pending keys that were there or that the epoch wrote. -/
theorem Committed.erased (committed : Committed store draft next stats)
    (represents : Represents store before) (follows : Follows before draft replay) :
    stats.erased = replay.erased before := by
  have distinct := nodup_droppedKeys represents follows committed.sameLayout
  have keys : (store.droppedKeys draft).toFinset =
      replay.pending.filter fun key => (before key).isSome || (replay.written key).isSome := by
    ext key
    rw [List.mem_toFinset, mem_droppedKeys represents follows committed.sameLayout,
      Finset.mem_filter]
  rw [committed.stats, statsOf, ← length_droppedKeys, Replay.erased, ← keys,
    List.toFinset_card_of_nodup distinct]

omit [Inhabited τ] in
/-- The numbers of the shared and ghost rows that a commit merges. -/
theorem map_fst_stageFixed (store : Store τ) (draft : Draft τ) :
    (store.stageFixed draft).map Prod.fst =
      ((((store.contents.zip draft.rows).drop store.layout.exclusive).zipIdx
        store.layout.exclusive).filter fun numbered => numbered.1.2.isPending).map Prod.snd := by
  rw [stageFixed, pendingRows, List.map_filterMap, ← List.filterMap_eq_map, List.filterMap_filter]
  refine List.filterMap_congr fun numbered _ => ?_
  obtain ⟨⟨existing, row⟩, number⟩ := numbered
  cases changed : row.isPending <;> simp [changed]

/-- A commit reports as merged the exclusive rows and the other rows that the epoch changed. -/
theorem Committed.rowsMerged (committed : Committed store draft next stats)
    (represents : Represents store before) (follows : Follows before draft replay) :
    stats.rowsMerged = replay.rowsMerged store.layout := by
  have pairs := getElem?_pairs represents follows.formed committed.sameLayout
  have distinct : ((store.stageFixed draft).map Prod.fst).Nodup := by
    rw [map_fst_stageFixed]
    refine List.pairwise_map.2 (((pairwise_zipIdx _ _).filter _).imp fun less same => ?_)
    exact Nat.ne_of_lt less same
  have numbers : ((store.stageFixed draft).map Prod.fst).toFinset =
      replay.rows.filter (store.layout.exclusive ≤ ·) := by
    ext number
    rw [List.mem_toFinset, Finset.mem_filter, ← follows.isPending_iff, map_fst_stageFixed]
    simp only [List.mem_map, List.mem_filter, Prod.exists, exists_eq_right,
      List.mk_mem_zipIdx_iff_le_and_getElem?_sub, List.getElem?_drop]
    constructor
    · rintro ⟨existing, row, ⟨fixed, found⟩, pending⟩
      rw [Nat.add_sub_cancel' fixed, pairs] at found
      split at found
      · cases found
        exact ⟨pending, fixed⟩
      · cases found
    · rintro ⟨pending, fixed⟩
      refine ⟨store.cellsOf number, draft.row number, ⟨fixed, ?_⟩, pending⟩
      have inside : number < store.layout.numRows := by
        by_contra outside
        rw [follows.formed.row_eq_empty (committed.sameLayout ▸ Nat.not_lt.1 outside)] at pending
        cases pending
      rw [Nat.add_sub_cancel' fixed, pairs, if_pos inside]
  have pending : (store.swept draft).pending.length =
      ((store.stageFixed draft).map Prod.fst).length := by
    rw [swept, List.length_map, List.length_map]
  rw [committed.stats, Replay.rowsMerged, ← numbers, List.toFinset_card_of_nodup distinct,
    ← pending]
  rfl

end Store

end Committing

/-! ## Runs of epochs -/

section Running

variable {τ : Type} [Inhabited τ]

/-- An epoch: its changes, the memory that its draft and its commit are given, and the working space
of the commit. -/
structure Epoch (τ : Type) where
  draftMemory : Memory
  memory : Memory
  scratch : Memory
  changes : List (Change τ)

namespace Store

/-- One epoch: a fresh draft, its changes, and its commit. -/
def epoch (config : SparseConfig) (store : Store τ) (epoch : Epoch τ) :
    Except Error (Store τ × CommitStats) := do
  let fresh ← Draft.ofConfig epoch.draftMemory store.layout config
  let draft ← fresh.changeAll epoch.changes
  store.commit epoch.memory epoch.scratch draft

/-- Epochs in turn, with what each commit reports. -/
def run (config : SparseConfig) (store : Store τ) :
    List (Epoch τ) → Except Error (Store τ × List CommitStats)
  | [] => .ok (store, [])
  | first :: rest => do
      let (next, stats) ← store.epoch config first
      let (last, more) ← run config next rest
      return (last, stats :: more)

theorem Created.represents {layout : Layout} {maxEntries reserveChunk : Nat} {store : Store τ}
    (created : Created layout maxEntries reserveChunk store) :
    Represents store fun _ => none := by
  have blank : ∀ cells ∈ store.contents, cells = [] := by
    rw [created.holds.contents]
    intro cells member
    rcases List.mem_append.1 member with exclusive | fixed
    · exact List.eq_of_mem_replicate exclusive
    · exact List.eq_of_mem_replicate fixed
  refine ⟨⟨_, _, created.holds⟩, fun cells member => ?_, fun cells member => ?_, ?_,
    created.sameWidth ▸ created.narrow, created.addressable⟩
  · rw [blank cells member]
    exact .nil
  · rw [blank cells member]
    simp
  · intro number entry
    rw [cellsOf]
    cases found : store.contents[number]? with
    | none => rfl
    | some cells => rw [blank cells (List.mem_of_getElem? found)]; rfl

/-- What stays the same from one epoch to the next. -/
structure Serves (config : SparseConfig) (layout : Layout) (store : Store τ) : Prop where
  layout : store.layout = layout
  maxEntries : store.maxEntries = config.maxEntries
  narrow : config.maxEntries ≤ maxRowLength

variable {config : SparseConfig} {layout : Layout} {store : Store τ}
  {before : Key → Option τ}

/-- One epoch takes the map that a store represents through the replay of its changes. -/
theorem Serves.epoch (serves : Serves config layout store) (represents : Represents store before)
    {epoch : Epoch τ} {next : Store τ} {stats : CommitStats}
    (done : store.epoch config epoch = .ok (next, stats)) :
    let replay := Replay.epoch before epoch.changes
    Serves config layout next ∧ Represents next replay.contents ∧
      stats.rowsMerged = replay.rowsMerged layout ∧ stats.erased = replay.erased before := by
  obtain ⟨fresh, created, done⟩ := bind_eq_ok.1 done
  obtain ⟨draft, changed, committed⟩ := bind_eq_ok.1 done
  have isFresh := Draft.create_fresh created
  have follows := isFresh.follows before
  obtain ⟨shape, follows⟩ := follows.of_changeAll changed
  have committed := represents.committed follows.formed committed
  refine ⟨⟨committed.layout.trans serves.layout, committed.maxEntries.trans serves.maxEntries,
    serves.narrow⟩, committed.represents represents follows, ?_,
    committed.erased represents follows⟩
  rw [← serves.layout]
  exact committed.rowsMerged represents follows

/-- Epochs one after the other take the map through the replay of all their changes. -/
theorem Serves.run (serves : Serves config layout store) (represents : Represents store before)
    {epochs : List (Epoch τ)} {last : Store τ} {stats : List CommitStats}
    (done : store.run config epochs = .ok (last, stats)) :
    Serves config layout last ∧
      Represents last (Replay.run before (epochs.map Epoch.changes)) ∧
      stats.map (fun stats => (stats.rowsMerged, stats.erased)) =
        Replay.counts layout before (epochs.map Epoch.changes) := by
  induction epochs generalizing store before stats with
  | nil =>
      cases done
      exact ⟨serves, represents, rfl⟩
  | cons epoch epochs ih =>
      obtain ⟨⟨next, first⟩, head, done⟩ := bind_eq_ok.1 done
      obtain ⟨⟨final, more⟩, tail, done⟩ := bind_eq_ok.1 done
      cases done
      obtain ⟨serves, represents, rowsMerged, erased⟩ := serves.epoch represents head
      obtain ⟨serves, represents, rest⟩ := ih serves represents tail
      refine ⟨serves, represents, ?_⟩
      rw [List.map_cons, rest, rowsMerged, erased]
      rfl

/-- A store shows what replaying the changes of all its epochs gives, and its commits report what
the replay counts.  Changes inside the layout and the row width never fail. -/
theorem run_shows_replay {memory : Memory} {first : Store τ}
    (created : Store.ofConfig memory layout config = .ok first) (epochs : List (Epoch τ)) :
    (∀ epoch ∈ epochs, (∀ change ∈ epoch.changes, change.Inside layout config.maxEntries) →
      ∀ fresh, Draft.ofConfig epoch.draftMemory layout config = .ok fresh →
        ∃ draft, fresh.changeAll epoch.changes = .ok draft) ∧
    ∀ last stats, first.run config epochs = .ok (last, stats) →
      last.layout = layout ∧
      last.Shows (Replay.run (fun _ => none) (epochs.map Epoch.changes)) ∧
      stats.map (fun stats => (stats.rowsMerged, stats.erased)) =
        Replay.counts layout (fun _ => none) (epochs.map Epoch.changes) := by
  have isCreated := Store.create_created created
  have serves : Serves config layout first :=
    ⟨isCreated.sameLayout, isCreated.sameWidth, isCreated.narrow⟩
  constructor
  · intro epoch _ inside fresh drafted
    have isFresh := Draft.create_fresh drafted
    have follows := isFresh.follows fun _ => none
    obtain ⟨draft, made, _⟩ := follows.changeAll (isFresh.maxEntries ▸ serves.narrow)
      fun change member => isFresh.layout ▸ isFresh.maxEntries ▸ inside change member
    exact ⟨draft, made⟩
  · intro last stats done
    obtain ⟨serves, represents, reported⟩ := serves.run isCreated.represents done
    exact ⟨serves.layout, represents.shows, reported⟩

/-- Two epochs on an exclusive row and a ghost row.  The first spills over and grows the exclusive
region; the second erases a committed cell and one that was never there. -/
def twoEpochs : List (Epoch Nat) :=
  let unlimited : Memory := .ofElementBytes 8
  [{ draftMemory := unlimited, memory := unlimited, scratch := unlimited
     changes := [.set 0 2 7, .set 0 1 8, .update 1 0 (· + 1)] },
   { draftMemory := unlimited, memory := unlimited, scratch := unlimited
     changes := [.erase 0 2, .set 1 2 5, .erase 1 1] }]

theorem run_shows_replay_twoEpochs :
    let memory : Memory := .ofElementBytes 8
    let layout : Layout := { exclusive := 1, ghost := 1 }
    let config : SparseConfig := { numSlots := 1, maxEntries := 3, reserveChunk := 1 }
    ∃ first last stats, Store.ofConfig memory layout config = .ok first ∧
      first.run config twoEpochs = .ok (last, stats) ∧ last.layout = layout ∧
      last.Shows (Replay.run (fun _ => none) (twoEpochs.map Epoch.changes)) ∧
      stats.map (fun stats => (stats.rowsMerged, stats.erased)) =
        Replay.counts layout (fun _ => none) (twoEpochs.map Epoch.changes) := by
  intro memory layout config
  have runs : ((Store.ofConfig memory layout config).bind fun first : Store Nat =>
      first.run config twoEpochs).isOk = true := by decide +kernel
  cases created : (Store.ofConfig memory layout config : Except Error (Store Nat)) with
  | error error =>
      rw [created] at runs
      cases runs
  | ok first =>
      rw [created, Except.bind] at runs
      cases done : first.run config twoEpochs with
      | error error =>
          rw [done] at runs
          cases runs
      | ok result =>
          obtain ⟨last, stats⟩ := result
          exact ⟨first, last, stats, rfl, done, (run_shows_replay created twoEpochs).2 _ _ done⟩

end Store

end Running

end Subdomain

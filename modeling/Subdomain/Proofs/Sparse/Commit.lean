import Subdomain.Proofs.Sparse.Contents
import Subdomain.Proofs.Sparse.Erasure

/-!
# What a commit leaves in a store

A commit is followed through its stages: the rows merged in a scratch buffer, which is then swept of what
is erased, a grown buffer, the exclusive rows packed anew, the shared and ghost rows replaced one by one.
Every stage keeps the rule by which rows are laid out, so all that remains of a commit is which rows the
store holds after it.
-/

namespace Subdomain

/-! ## The stages of a commit -/

namespace Store

variable {τ : Type} {store : Store τ} {draft : Draft τ}

/-- What staging refuses, in order; what it leaves is the rows without their erased entries. -/
theorem stage_eq (scratch : Memory)
    (tidily : draft.layout = store.layout → draft.maxEntries = store.maxEntries →
      store.MergesTidily draft) :
    store.stage scratch draft =
      if draft.layout ≠ store.layout then
        .error (.layoutMismatch draft.layout.counts store.layout.counts)
      else if draft.maxEntries ≠ store.maxEntries then
        .error (.invalidConfig <| s!"mutator row width {draft.maxEntries} does not match " ++
          s!"target row width {store.maxEntries}")
      else if ¬ scratch.grants (store.exclusiveUsed + draft.exclusiveInsertions) then
        .error (.allocationFailed (store.exclusiveUsed + draft.exclusiveInsertions))
      else
        match (store.stageExclusive draft).find? fun row =>
          decide (maxRowLength < row.merged.length) with
        | some row => .error (.offsetCountOverflow row.merged.length 16)
        | none =>
          match (store.stageFixed draft).find? fun staged =>
            decide (store.maxEntries < staged.2.kept.length) with
          | some staged =>
            .error (.rowCapacityExceeded staged.1 staged.2.kept.length store.maxEntries)
          | none =>
            .ok (store.swept draft, ((store.staged draft).flatMap StagedRow.dropped).length) := by
  unfold stage
  refine ite_congr rfl (fun _ => rfl) fun sameLayout => ?_
  refine ite_congr rfl (fun _ => rfl) fun sameWidth => ?_
  refine ite_congr rfl (fun _ => rfl) fun _ => ?_
  have erased := erase_merged (tidily (not_not.1 sameLayout) (not_not.1 sameWidth))
  dsimp only
  rw [Scratch.ofRows_eq]
  cases List.find? (fun row => decide (maxRowLength < row.merged.length))
      (store.stageExclusive draft) with
  | some row => rfl
  | none =>
      dsimp only
      rw [ok_bind, erased]
      dsimp only [swept]
      rw [List.find?_map]
      simp only [Function.comp_def]
      cases List.find? (fun staged => decide (store.maxEntries < staged.2.kept.length))
          (store.stageFixed draft) with
      | some staged => rfl
      | none => rfl

/-- What staging that succeeds says of a draft, and what it leaves. -/
structure Staged (store : Store τ) (draft : Draft τ) (swept : Scratch τ) (erased : Nat) : Prop where
  sameLayout : draft.layout = store.layout
  sameWidth : draft.maxEntries = store.maxEntries
  swept : swept = store.swept draft
  erased : erased = ((store.staged draft).flatMap StagedRow.dropped).length
  fits : ∀ staged ∈ store.stageFixed draft, staged.2.kept.length ≤ store.maxEntries

theorem staged_of_stage {scratch : Memory} {swept : Scratch τ} {erased : Nat}
    (tidily : draft.layout = store.layout → draft.maxEntries = store.maxEntries →
      store.MergesTidily draft)
    (done : store.stage scratch draft = .ok (swept, erased)) : Staged store draft swept erased := by
  rw [stage_eq scratch tidily] at done
  split at done
  · cases done
  next sameLayout =>
  split at done
  · cases done
  next sameWidth =>
  split at done
  · cases done
  split at done
  · cases done
  split at done
  · cases done
  next noneWide =>
  cases done
  refine ⟨not_not.1 sameLayout, not_not.1 sameWidth, rfl, rfl, ?_⟩
  intro staged member
  have narrow := List.find?_eq_none.1 noneWide staged member
  simpa using narrow

/-- A commit that succeeds has staged the rows and enlarged the buffer if it had to. -/
theorem commit_eq_ok {memory scratch : Memory} {next : Store τ} {stats : CommitStats}
    [Inhabited τ] (done : store.commit memory scratch draft = .ok (next, stats)) :
    ∃ swept erased target, store.stage scratch draft = .ok (swept, erased) ∧
      store.enlarge memory draft swept = .ok target ∧ next = target.install swept ∧
      stats = store.statsOf draft swept erased := by
  obtain ⟨⟨swept, erased⟩, staged, done⟩ := bind_eq_ok.1 done
  obtain ⟨target, grown, done⟩ := bind_eq_ok.1 done
  cases done
  exact ⟨swept, erased, target, staged, grown, rfl, rfl⟩

variable [Inhabited τ]

/-- What the stages of a commit leave alone: the shape of the store and the room of its regions. -/
structure SameRoom (first second : Store τ) : Prop where
  layout : first.layout = second.layout
  maxEntries : first.maxEntries = second.maxEntries
  reserveChunk : first.reserveChunk = second.reserveChunk
  exclusiveCapacity : first.exclusiveCapacity = second.exclusiveCapacity
  reallocations : first.reallocations = second.reallocations

omit [Inhabited τ] in
theorem SameRoom.refl (store : Store τ) : SameRoom store store := ⟨rfl, rfl, rfl, rfl, rfl⟩

omit [Inhabited τ] in
theorem SameRoom.trans {first second third : Store τ} (left : SameRoom first second)
    (right : SameRoom second third) : SameRoom first third where
  layout := left.layout.trans right.layout
  maxEntries := left.maxEntries.trans right.maxEntries
  reserveChunk := left.reserveChunk.trans right.reserveChunk
  exclusiveCapacity := left.exclusiveCapacity.trans right.exclusiveCapacity
  reallocations := left.reallocations.trans right.reallocations

variable {packed : List (Cell τ)} {exclusive fixed rows : List (List (Cell τ))}

theorem sameRoom_installExclusive (store : Store τ) (packed : List (Cell τ))
    (extents : List Extent) : SameRoom (store.installExclusive packed extents) store :=
  ⟨rfl, rfl, rfl, rfl, rfl⟩

theorem sameRoom_installFixed (store : Store τ) (number : Nat) (cells : List (Cell τ)) :
    SameRoom (store.installFixed number cells) store := ⟨rfl, rfl, rfl, rfl, rfl⟩

theorem sameRoom_install (target : Store τ) (swept : Scratch τ) :
    SameRoom (target.install swept) target := by
  have fixedRows : ∀ (rows : List (Nat × List (Cell τ))) (target : Store τ),
      SameRoom (rows.foldl (fun target row => target.installFixed row.1 row.2) target) target := by
    intro rows target
    induction rows generalizing target with
    | nil => exact .refl target
    | cons staged rows ih => exact (ih _).trans (sameRoom_installFixed ..)
  exact (fixedRows _ _).trans (sameRoom_installExclusive ..)

theorem layout_of_grow {memory : Memory} {capacity : Nat} {grown : Store τ}
    (done : store.grow memory capacity = .ok grown) : grown.layout = store.layout := by
  unfold grow at done
  obtain ⟨_, done⟩ := refuse_eq_ok.1 done
  obtain ⟨_, _, done⟩ := bind_eq_ok.1 done
  cases done
  rfl

/-- A commit keeps the layout, whatever is committed. -/
theorem layout_of_commit {memory scratch : Memory} {draft : Draft τ} {next : Store τ}
    {stats : CommitStats} (done : store.commit memory scratch draft = .ok (next, stats)) :
    next.layout = store.layout := by
  obtain ⟨swept, _, target, _, grown, rfl, _⟩ := commit_eq_ok done
  refine (sameRoom_install target swept).layout.trans ?_
  rw [enlarge] at grown
  split at grown
  · exact layout_of_grow grown
  · cases grown
    rfl

/-- New exclusive rows that fit their region are in place once installed, whatever was there. -/
theorem holds_installExclusive (holds : HoldsFixed store packed fixed)
    (count : rows.length = store.layout.exclusive)
    (fits : rows.flatten.length ≤ store.exclusiveCapacity) :
    Holds (store.installExclusive rows.flatten (Extent.consecutive 0 (rows.map List.length))) rows
      fixed := by
  have wide := holds.length_padded
  have oldFits : packed.length ≤ store.exclusiveCapacity := holds.used ▸ holds.roomy
  refine ⟨⟨holds.count, holds.fits, ?_, ?_, ?_, rfl, fits⟩, count, ?_⟩
  · simp [installExclusive, count]
  · simp [installExclusive, ← count, ← holds.extents]
  · have within : (rows.flatten ++ List.replicate (packed.length - rows.flatten.length)
        Cell.vacant).length ≤ (padded store.exclusiveCapacity packed).length := by
      rw [wide, List.length_append, List.length_replicate]
      omega
    simp only [installExclusive]
    rw [← holds.used, holds.cells, overwrite_front within, overwrite_padded oldFits fits]
  · simp [installExclusive, ← count]

/-- The extent of a shared or ghost row. -/
theorem HoldsFixed.extent (holds : HoldsFixed store packed fixed) {position : Nat}
    {row : List (Cell τ)} (found : fixed[position]? = some row) :
    store.extents[store.layout.exclusive + position]? =
      some ⟨store.exclusiveCapacity + position * store.maxEntries, row.length⟩ := by
  rw [← List.getElem?_drop, holds.extents, Extent.getElem?_strided, List.getElem?_map, found]
  rfl

/-- A shared or ghost row replaced by another that fits its room. -/
theorem holds_installFixed (holds : Holds store exclusive fixed) {position : Nat}
    {row cells : List (Cell τ)} (found : fixed[position]? = some row)
    (fits : cells.length ≤ store.maxEntries) :
    Holds (store.installFixed (store.layout.exclusive + position) cells) exclusive
      (fixed.set position cells) := by
  have wide := holds.length_padded
  have oldFits : row.length ≤ store.maxEntries := holds.fits row (List.mem_of_getElem? found)
  have extent := holds.extent found
  refine ⟨⟨?_, ?_, ?_, ?_, ?_, holds.used, holds.roomy⟩, holds.exclusiveCount, ?_⟩
  · simpa [installFixed] using holds.count
  · intro other member
    rcases List.mem_or_eq_of_mem_set member with unchanged | equal
    · exact holds.fits other unchanged
    · exact equal ▸ fits
  · simpa [installFixed] using holds.described
  · simp only [installFixed, extent, Option.getD_some, List.drop_set, holds.extents,
      Nat.add_sub_cancel_left, List.map_set, ← Extent.set_strided]
    simp
  · have blocks : (fixed.map (padded store.maxEntries))[position]? =
        some (padded store.maxEntries row) := by
      rw [List.getElem?_map, found]
      rfl
    have blocksWide : ∀ block ∈ fixed.map (padded store.maxEntries),
        block.length = store.maxEntries := by
      intro block member
      obtain ⟨other, inFixed, rfl⟩ := List.mem_map.1 member
      exact length_padded (holds.fits other inFixed)
    have within : (cells ++ List.replicate (row.length - cells.length) Cell.vacant).length ≤
        store.maxEntries := by
      rw [List.length_append, List.length_replicate]
      omega
    simp only [installFixed, extent, Option.getD_some, holds.cells]
    rw [overwrite_append wide, overwrite_flatten blocksWide blocks within,
      overwrite_padded oldFits fits, List.map_set]
  · simp only [installFixed, List.take_set_of_le (Nat.le_add_right _ _)]
    exact holds.exclusiveExtents

/-- The store after growing: the exclusive region is vacant, the other rows are as before. -/
structure Grown (store : Store τ) (fixed : List (List (Cell τ))) (capacity : Nat)
    (grown : Store τ) : Prop where
  holds : HoldsFixed grown (List.replicate store.exclusiveUsed Cell.vacant) fixed
  layout : grown.layout = store.layout
  maxEntries : grown.maxEntries = store.maxEntries
  reserveChunk : grown.reserveChunk = store.reserveChunk
  exclusiveCapacity : grown.exclusiveCapacity = capacity
  reallocations : grown.reallocations = store.reallocations + 1
  addressable : grown.cells.length ≤ maxElements

theorem grow_grown {memory : Memory} {capacity : Nat} {grown : Store τ}
    (holds : HoldsFixed store packed fixed) (enough : store.exclusiveUsed ≤ capacity)
    (done : store.grow memory capacity = .ok grown) : Grown store fixed capacity grown := by
  unfold grow at done
  obtain ⟨_, done⟩ := refuse_eq_ok.1 done
  obtain ⟨cells, allocated, done⟩ := bind_eq_ok.1 done
  obtain ⟨blank, short⟩ := allocate_eq_ok allocated
  have wide := holds.length_padded
  have carried : store.cells.drop store.exclusiveCapacity =
      (fixed.map (padded store.maxEntries)).flatten := by
    rw [holds.cells, List.drop_left' wide]
  cases done
  refine ⟨⟨holds.count, holds.fits, ?_, ?_, ?_, ?_, enough⟩, rfl, rfl, rfl, rfl, rfl, ?_⟩
  · simp [Nat.min_eq_left holds.described]
  · have front : (store.extents.take store.layout.exclusive).length = store.layout.exclusive := by
      simp [holds.described]
    have moved := Extent.map_rebase_strided store.exclusiveCapacity capacity 0 store.maxEntries
      (fixed.map List.length)
    simp only [Nat.add_zero] at moved
    rw [List.drop_left' front, holds.extents, moved]
  · have covered : ∀ run : List (Cell τ),
        overwrite capacity run (List.replicate (capacity + run.length) Cell.vacant) =
          List.replicate capacity Cell.vacant ++ run := by
      intro run
      simp [overwrite]
    have vacant : padded capacity (List.replicate store.exclusiveUsed (Cell.vacant (τ := τ))) =
        List.replicate capacity Cell.vacant := by
      simp [padded, enough]
    simp only [carried, blank, covered, vacant]
  · simp
  · simpa [overwrite, blank] using short

/-- The store in which merged rows are installed: the old one, or one with a larger exclusive region. -/
structure Enlarged (store : Store τ) (draft : Draft τ) (swept : Scratch τ)
    (fixed : List (List (Cell τ))) (target : Store τ) : Prop where
  holds : ∃ packed, HoldsFixed target packed fixed
  layout : target.layout = store.layout
  maxEntries : target.maxEntries = store.maxEntries
  reserveChunk : target.reserveChunk = store.reserveChunk
  exclusiveCapacity : target.exclusiveCapacity =
    if store.growsFor draft swept then store.grownCapacity draft swept else store.exclusiveCapacity
  reallocations : target.reallocations =
    if store.growsFor draft swept then store.reallocations + 1 else store.reallocations
  room : swept.cells.length ≤ target.exclusiveCapacity
  addressable : target.cells.length ≤ maxElements

theorem enlarge_enlarged {memory : Memory} {swept : Scratch τ} {target : Store τ}
    (holds : HoldsFixed store packed fixed) (addressable : store.cells.length ≤ maxElements)
    (done : store.enlarge memory draft swept = .ok target) :
    Enlarged store draft swept fixed target := by
  rw [enlarge] at done
  cases grows : store.growsFor draft swept with
  | false =>
      rw [grows, if_neg Bool.false_ne_true] at done
      cases done
      have room := grows
      simp only [growsFor, Bool.or_eq_false_iff, decide_eq_false_iff_not, Nat.not_lt] at room
      refine ⟨⟨packed, holds⟩, rfl, rfl, rfl, ?_, ?_, room.2, addressable⟩
      · rw [grows, if_neg Bool.false_ne_true]
      · rw [grows, if_neg Bool.false_ne_true]
  | true =>
      rw [grows, if_pos rfl] at done
      have enough : store.exclusiveUsed ≤ store.grownCapacity draft swept := by
        rw [grownCapacity]
        omega
      have grown := grow_grown holds enough done
      refine ⟨⟨_, grown.holds⟩, grown.layout, grown.maxEntries, grown.reserveChunk, ?_, ?_, ?_,
        grown.addressable⟩
      · rw [grown.exclusiveCapacity, grows, if_pos rfl]
      · rw [grown.reallocations, grows, if_pos rfl]
      · rw [grown.exclusiveCapacity, grownCapacity]
        omega

/-! ## The rows after a commit -/

/-- The pending rows installed one by one: by induction on the rows not yet visited, with the rows
already visited in front of them. -/
theorem holds_foldl_installFixed {pairs : List (List (Cell τ) × DraftRow τ)}
    (before : List (List (Cell τ)))
    (holds : Holds store exclusive (before ++ pairs.map Prod.fst))
    (fits : ∀ pair ∈ pairs, pair.2.isPending →
      (StagedRow.ofRow pair.1 pair.2).kept.length ≤ store.maxEntries) :
    let installed := (pendingRows pairs (store.layout.exclusive + before.length)).foldl
      (fun target (number, row) => target.installFixed number row.kept) store
    Holds installed exclusive (before ++ keptRows pairs) := by
  induction pairs generalizing before store with
  | nil => exact holds
  | cons pair pairs ih =>
      obtain ⟨existing, row⟩ := pair
      have tail : ∀ pair ∈ pairs, pair.2.isPending →
          (StagedRow.ofRow pair.1 pair.2).kept.length ≤ store.maxEntries :=
        fun other member => fits other (List.mem_cons_of_mem _ member)
      simp only [pendingRows_cons, keptRows, List.map_cons]
      cases pending : row.isPending with
      | false =>
          have unchanged : (StagedRow.ofRow existing row).kept = existing :=
            StagedRow.kept_of_not_isPending pending
          have step := ih (before ++ [existing]) (by simpa using holds) tail
          simpa [unchanged, keptRows, Nat.add_assoc] using step
      | true =>
          have found : (before ++ existing :: pairs.map Prod.fst)[before.length]? =
              some existing := by simp
          let cells := (StagedRow.ofRow existing row).kept
          let target := store.installFixed (store.layout.exclusive + before.length) cells
          have written : Holds target exclusive (before ++ [cells] ++ pairs.map Prod.fst) := by
            have replaced := holds_installFixed holds found
              (fits (existing, row) List.mem_cons_self pending)
            simpa using replaced
          have step := ih (before ++ [cells]) written tail
          have room : SameRoom target store := sameRoom_installFixed ..
          simp only [room.layout, List.length_append, List.length_singleton, List.append_assoc,
            List.singleton_append, ← Nat.add_assoc] at step
          exact step

/-- A commit that succeeds leaves the merged rows of the draft and nothing else, in a store of the
same shape. -/
structure Committed (store : Store τ) (draft : Draft τ) (next : Store τ) (stats : CommitStats) :
    Prop where
  sameLayout : draft.layout = store.layout
  sameWidth : draft.maxEntries = store.maxEntries
  holds :
    let kept := keptRows (store.contents.zip draft.rows)
    Holds next (kept.take store.layout.exclusive) (kept.drop store.layout.exclusive)
  layout : next.layout = store.layout
  maxEntries : next.maxEntries = store.maxEntries
  reserveChunk : next.reserveChunk = store.reserveChunk
  exclusiveCapacity : next.exclusiveCapacity =
    if store.growsFor draft (store.swept draft) then
      store.grownCapacity draft (store.swept draft)
    else store.exclusiveCapacity
  reallocations : next.reallocations =
    if store.growsFor draft (store.swept draft) then store.reallocations + 1
    else store.reallocations
  stats : stats = store.statsOf draft (store.swept draft)
    ((store.staged draft).flatMap StagedRow.dropped).length
  addressable : next.cells.length ≤ maxElements

/-- The merged rows of a draft in place, in a store that has room for them. -/
theorem holds_install {target : Store τ} (holds : Holds store exclusive fixed)
    (formed : draft.rows.length = store.layout.numRows)
    (targetHolds : HoldsFixed target packed fixed) (sameLayout : target.layout = store.layout)
    (sameWidth : target.maxEntries = store.maxEntries)
    (room : (store.swept draft).cells.length ≤ target.exclusiveCapacity)
    (fits : ∀ staged ∈ store.stageFixed draft, staged.2.kept.length ≤ store.maxEntries) :
    let kept := keptRows (store.contents.zip draft.rows)
    Holds (target.install (store.swept draft)) (kept.take store.layout.exclusive)
      (kept.drop store.layout.exclusive) := by
  let pairs := store.contents.zip draft.rows
  let rows := (keptRows pairs).take store.layout.exclusive
  have exclusiveRows : (store.stageExclusive draft).map StagedRow.kept = rows := by
    simp only [stageExclusive, keptRows, pairs, rows, List.map_take, List.map_map]
    rfl
  have length : pairs.length = store.layout.numRows := by
    simp only [pairs, List.length_zip, holds.length_contents, formed, Nat.min_self]
  have count : rows.length = target.layout.exclusive := by
    simp only [rows, keptRows, List.length_take, List.length_map, length, Layout.numRows,
      sameLayout]
    omega
  have existing : (pairs.drop store.layout.exclusive).map Prod.fst = fixed := by
    have firsts : pairs.map Prod.fst = store.contents :=
      List.map_fst_zip (by rw [holds.length_contents, formed])
    rw [List.map_drop, firsts, holds.contents, List.drop_left' holds.exclusiveCount]
  have sweptCells : (store.swept draft).cells = rows.flatten := congrArg List.flatten exclusiveRows
  have sweptExtents : (store.swept draft).extents = Extent.consecutive 0 (rows.map List.length) := by
    rw [swept, exclusiveRows]
  let begun := target.installExclusive rows.flatten (Extent.consecutive 0 (rows.map List.length))
  have sameRoom : SameRoom begun target := sameRoom_installExclusive ..
  have packed : Holds begun rows ([] ++ (pairs.drop store.layout.exclusive).map Prod.fst) := by
    rw [List.nil_append, existing]
    exact holds_installExclusive targetHolds count (sweptCells ▸ room)
  have written := holds_foldl_installFixed [] packed ?_
  · simp only [List.length_nil, Nat.add_zero, List.nil_append, sameRoom.layout,
      sameLayout] at written
    intro kept
    have dropped : kept.drop store.layout.exclusive =
        keptRows (pairs.drop store.layout.exclusive) := List.map_drop.symm
    rw [dropped, install, sweptCells, sweptExtents, swept, List.foldl_map]
    exact written
  · intro pair member pending
    obtain ⟨position, inside, located⟩ := List.mem_iff_getElem.1 member
    have staged : (store.layout.exclusive + position, StagedRow.ofRow pair.1 pair.2) ∈
        store.stageFixed draft := by
      rw [stageFixed, pendingRows, List.mem_filterMap]
      refine ⟨(pair, store.layout.exclusive + position), ?_, by simp [pending]⟩
      rw [List.mk_add_mem_zipIdx_iff_getElem?, List.getElem?_eq_getElem inside, located]
    rw [sameRoom.maxEntries, sameWidth]
    exact fits _ staged

/-- The rows of a store that represents a map merge tidily with those of a draft for it. -/
theorem Represents.mergesTidily {before : Key → Option τ} (represents : Represents store before)
    (formed : draft.WellFormed) (sameLayout : draft.layout = store.layout)
    (sameWidth : draft.maxEntries = store.maxEntries) : store.MergesTidily draft where
  committed := represents.length
  drafted := sameLayout ▸ formed.length
  tidy := by
    rintro ⟨existing, row⟩ member
    obtain ⟨committed, drafted⟩ := List.of_mem_zip member
    have rowFormed := sameWidth ▸ formed.rows row drafted
    refine ⟨StagedRow.ascending_merged (represents.ascending existing committed) rowFormed, ?_⟩
    intro cell held
    exact represents.isVacant_eq_false <|
      StagedRow.below_merged (represents.below existing committed) rowFormed cell held

theorem Represents.committed {before : Key → Option τ} (represents : Represents store before)
    {memory scratch : Memory} {next : Store τ} {stats : CommitStats} (formed : draft.WellFormed)
    (done : store.commit memory scratch draft = .ok (next, stats)) :
    Committed store draft next stats := by
  obtain ⟨swept, erased, target, staged, grown, rfl, rfl⟩ := commit_eq_ok done
  obtain ⟨sameLayout, sameWidth, rfl, rfl, fits⟩ :=
    staged_of_stage (represents.mergesTidily formed) staged
  obtain ⟨exclusive, fixed, holds⟩ := represents.holds
  have enlarged := enlarge_enlarged holds.toHoldsFixed represents.addressable grown
  obtain ⟨packed, targetHolds⟩ := enlarged.holds
  have length : draft.rows.length = store.layout.numRows := sameLayout ▸ formed.length
  have installed :=
    holds_install holds length targetHolds enlarged.layout enlarged.maxEntries enlarged.room fits
  have same := sameRoom_install target (store.swept draft)
  exact {
    sameLayout, sameWidth
    holds := installed
    layout := same.layout.trans enlarged.layout
    maxEntries := same.maxEntries.trans enlarged.maxEntries
    reserveChunk := same.reserveChunk.trans enlarged.reserveChunk
    exclusiveCapacity := same.exclusiveCapacity.trans enlarged.exclusiveCapacity
    reallocations := same.reallocations.trans enlarged.reallocations
    stats := rfl
    addressable := by
      rw [installed.length_cells, same.exclusiveCapacity, same.layout, same.maxEntries,
        ← targetHolds.length_cells]
      exact enlarged.addressable }

end Store

end Subdomain

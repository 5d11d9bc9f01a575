import Subdomain.Proofs.Sparse.Compaction
import Subdomain.Proofs.Sparse.Marks

/-!
# Erasing in place

A commit merges the rows of a draft into a scratch buffer, marks the erased entries there and takes the
marked cells out.  What is left of every row is the row without its erased entries, and the commit counts
the cells that it removes.
-/

namespace Subdomain

/-! ## Taking out what is marked -/

namespace Scratch

variable {τ : Type}

/-- The buffer is compacted only if something was marked, which comes to the same. -/
theorem compact_unless_nothing {scratch : Scratch τ} {rows : List (StagedRow τ)}
    (tidy : ∀ row ∈ rows, row.Tidy) (cells : scratch.cells = (rows.map StagedRow.marked).flatten)
    (extents : scratch.extents = Extent.consecutive 0 (rows.map fun row => row.merged.length)) :
    (if (StagedRow.spread 0 rows).isEmpty then scratch else scratch.compact) = {
      cells := (rows.map StagedRow.kept).flatten
      extents := Extent.consecutive 0 ((rows.map StagedRow.kept).map List.length)
      pending := scratch.pending } := by
  have markedLengths : (rows.map fun row => row.merged.length) =
      (rows.map StagedRow.marked).map List.length := by
    simp [Function.comp_def, StagedRow.length_marked]
  rw [markedLengths] at extents
  split
  next nothing =>
    have unmarked : rows.map StagedRow.marked = rows.map StagedRow.kept :=
      List.map_congr_left fun row member => (tidy row member).marked_eq_kept <|
        StagedRow.positions_of_places (List.isEmpty_iff.1 nothing) row member
    rw [← unmarked, ← cells, ← extents]
  next =>
    have swept : (rows.map StagedRow.marked).map Cell.filled = rows.map StagedRow.kept := by
      rw [List.map_map]
      exact List.map_congr_left fun row member => (tidy row member).filled_marked
    rw [compact_eq cells extents, swept]

/-- So it is with the rows that have a buffer each. -/
theorem filled_unless_nothing {rows : List (Nat × StagedRow τ)} (tidy : ∀ row ∈ rows, row.2.Tidy) :
    let marked := rows.map fun (number, row) => (number, row.marked)
    (if (StagedRow.spreadRows 0 rows).isEmpty then marked
      else marked.map (Prod.map id Cell.filled)) =
      rows.map fun (number, row) => (number, row.kept) := by
  intro marked
  split
  next nothing =>
    apply List.map_congr_left
    intro row member
    have unmarked := (tidy row member).marked_eq_kept <|
      StagedRow.positions_of_places (List.isEmpty_iff.1 nothing) row.2
        (List.mem_map_of_mem member)
    exact congrArg (row.1, ·) unmarked
  next =>
    rw [List.map_map]
    apply List.map_congr_left
    intro row member
    exact congrArg (row.1, ·) (tidy row member).filled_marked

end Scratch

/-! ## Merging, then erasing -/

namespace Store

variable {τ : Type} (store : Store τ) (draft : Draft τ)

/-- The merged rows of a draft, before the erasures. -/
def merged : Scratch τ where
  cells := ((store.stageExclusive draft).map StagedRow.merged).flatten
  extents := Extent.consecutive 0 ((store.stageExclusive draft).map fun row => row.merged.length)
  pending := Scratch.pendingCells (store.stageFixed draft)

/-- The merged rows of a draft without the erased entries. -/
def swept : Scratch τ where
  cells := ((store.stageExclusive draft).map StagedRow.kept).flatten
  extents := Extent.consecutive 0
    (((store.stageExclusive draft).map StagedRow.kept).map List.length)
  pending := (store.stageFixed draft).map fun (number, row) => (number, row.kept)

/-- A draft has a row for every row of the store, and each merges to a tidy row. -/
structure MergesTidily : Prop where
  committed : store.contents.length = store.layout.numRows
  drafted : draft.rows.length = store.layout.numRows
  tidy : ∀ pair ∈ store.contents.zip draft.rows, (StagedRow.ofRow pair.1 pair.2).Tidy

end Store

namespace Scratch

variable {τ : Type} {store : Store τ} {draft : Draft τ}

/-- Rows are merged back to back up to the first that cannot be described. -/
theorem foldlM_mergeRow (front : List (Cell τ)) (before : List Extent)
    (pairs : List (List (Cell τ) × DraftRow τ)) :
    let rows := pairs.map fun (existing, row) => StagedRow.ofRow existing row
    pairs.foldlM (fun scratch (existing, row) => mergeRow scratch existing row)
        ({ cells := front, extents := before } : Scratch τ) =
      match rows.find? fun row => decide (maxRowLength < row.merged.length) with
      | some row => .error (.offsetCountOverflow row.merged.length 16)
      | none => .ok {
          cells := front ++ (rows.map StagedRow.merged).flatten
          extents := before ++
            Extent.consecutive front.length (rows.map fun row => row.merged.length) } := by
  intro rows
  induction pairs generalizing front before with
  | nil => simp [rows, Extent.consecutive, pure, Except.pure]
  | cons pair pairs ih =>
      obtain ⟨existing, row⟩ := pair
      let staged := StagedRow.ofRow existing row
      have count : (front ++ staged.merged).length - front.length = staged.merged.length := by
        rw [List.length_append, Nat.add_sub_cancel_left]
      have step : mergeRow ({ cells := front, extents := before } : Scratch τ) existing row =
          if maxRowLength < staged.merged.length then
            .error (.offsetCountOverflow staged.merged.length 16)
          else .ok {
            cells := front ++ staged.merged
            extents := before ++ [⟨front.length, staged.merged.length⟩] } := by
        rw [← count]
        rfl
      rw [List.foldlM_cons]
      dsimp only
      rw [step]
      by_cases long : maxRowLength < staged.merged.length
      · simp only [rows, List.map_cons, List.find?_cons, staged] at long ⊢
        simp [long, Bind.bind, Except.bind]
      · rw [if_neg long]
        have rest := ih (front ++ staged.merged) (before ++ [⟨front.length, staged.merged.length⟩])
        refine Eq.trans rest ?_
        simp only [rows, List.map_cons, List.find?_cons, staged] at long ⊢
        simp [long, Extent.consecutive]

theorem mergePending_eq (store : Store τ) (draft : Draft τ) :
    mergePending store draft = pendingCells (store.stageFixed draft) := by
  have numbered : (store.contents.zip draft.rows).zipIdx.drop store.layout.exclusive =
      ((store.contents.zip draft.rows).drop store.layout.exclusive).zipIdx
        store.layout.exclusive := by
    apply List.ext_getElem?
    intro position
    simp [List.getElem?_zipIdx]
  rw [mergePending, numbered, Store.stageFixed, pendingCells, Store.pendingRows,
    List.map_filterMap]
  apply List.filterMap_congr
  rintro ⟨⟨existing, row⟩, number⟩ _
  dsimp only
  cases row.isPending <;> rfl

/-- What merging gives, or the first row that it fails on. -/
theorem ofRows_eq (store : Store τ) (draft : Draft τ) :
    ofRows store draft =
      match (store.stageExclusive draft).find? fun row =>
        decide (maxRowLength < row.merged.length) with
      | some row => .error (.offsetCountOverflow row.merged.length 16)
      | none => .ok (store.merged draft) := by
  have merged := foldlM_mergeRow [] []
    ((store.contents.zip draft.rows).take store.layout.exclusive)
  simp only [ofRows, merged, mergePending_eq]
  rw [Store.stageExclusive]
  cases List.find? _ _ <;> rfl

/-- The erasures of a draft are those of its rows merged. -/
theorem erasures_eq (drafted : draft.rows.length ≤ store.contents.length) :
    draft.erasures = StagedRow.noted 0
      ((store.contents.zip draft.rows).map fun (existing, row) => .ofRow existing row) := by
  have rows := List.map_snd_zip drafted
  rw [Draft.erasures, StagedRow.noted, ← rows, List.zipIdx_map, List.zipIdx_map, List.flatMap_map,
    List.flatMap_map, rows]
  rfl

end Scratch

namespace Store

variable {τ : Type} {store : Store τ} {draft : Draft τ}

namespace MergesTidily

theorem length_stageExclusive (tidily : store.MergesTidily draft) :
    (store.stageExclusive draft).length = store.layout.exclusive := by
  rw [stageExclusive, List.length_map, List.length_take, List.length_zip, tidily.committed,
    tidily.drafted, Layout.numRows]
  omega

theorem tidy_exclusive (tidily : store.MergesTidily draft) :
    ∀ row ∈ store.stageExclusive draft, row.Tidy := by
  intro row member
  obtain ⟨pair, listed, rfl⟩ := List.mem_map.1 member
  exact tidily.tidy pair (List.mem_of_mem_take listed)

theorem tidy_fixed (tidily : store.MergesTidily draft) :
    ∀ row ∈ store.stageFixed draft, row.2.Tidy := by
  intro row member
  obtain ⟨⟨pair, number⟩, numbered, chosen⟩ := List.mem_filterMap.1 member
  have listed := List.mem_of_mem_drop (List.fst_mem_of_mem_zipIdx numbered)
  dsimp only at chosen
  split at chosen
  · cases chosen
    exact tidily.tidy pair listed
  · cases chosen

/-- The erasures of the exclusive rows come before all others. -/
theorem erasures (tidily : store.MergesTidily draft) :
    draft.erasures = StagedRow.noted 0 (store.stageExclusive draft) ++
      StagedRow.noted store.layout.exclusive
        (((store.contents.zip draft.rows).drop store.layout.exclusive).map
          fun (existing, row) => .ofRow existing row) := by
  have listed : draft.rows.length ≤ store.contents.length :=
    Nat.le_of_eq (tidily.drafted.trans tidily.committed.symm)
  have split : (store.contents.zip draft.rows).map (fun (existing, row) =>
      StagedRow.ofRow existing row) = store.stageExclusive draft ++
        ((store.contents.zip draft.rows).drop store.layout.exclusive).map
          fun (existing, row) => StagedRow.ofRow existing row := by
    rw [stageExclusive, ← List.map_append, List.take_append_drop]
  rw [Scratch.erasures_eq listed, split, StagedRow.noted_append, tidily.length_stageExclusive,
    Nat.zero_add]

/-- The cells of the exclusive rows that a commit marks. -/
theorem positions (tidily : store.MergesTidily draft) :
    ((draft.erasures.filter fun (row, _) =>
      decide (row < store.layout.exclusive)).filterMap fun (row, entry) =>
        (store.merged draft).locate? row entry) =
      StagedRow.spread 0 (store.stageExclusive draft) := by
  have before : ∀ erasure ∈ StagedRow.noted 0 (store.stageExclusive draft),
      decide (erasure.1 < store.layout.exclusive) = true := by
    intro erasure member
    have range := (StagedRow.range_of_mem_noted member).2
    rw [tidily.length_stageExclusive, Nat.zero_add] at range
    exact decide_eq_true range
  have found := @Scratch.filterMap_locate? _ (store.merged draft) [] []
    (store.stageExclusive draft) rfl rfl
  rw [tidily.erasures, List.filter_append, List.filter_eq_self.2 before,
    List.filter_eq_nil_iff.2, List.append_nil]
  · exact found
  · intro erasure member
    have range := (StagedRow.range_of_mem_noted member).1
    simpa using range

/-- The cells of the shared and ghost rows that a commit marks. -/
theorem marks (tidily : store.MergesTidily draft) :
    ((draft.erasures.filter fun (row, _) =>
      decide (store.layout.exclusive ≤ row)).filterMap fun (row, entry) =>
        (store.merged draft).locatePending? row entry) =
      StagedRow.spreadRows 0 (store.stageFixed draft) := by
  have after : ∀ erasure ∈ StagedRow.noted store.layout.exclusive
      (((store.contents.zip draft.rows).drop store.layout.exclusive).map
        fun (existing, row) => StagedRow.ofRow existing row),
      decide (store.layout.exclusive ≤ erasure.1) = true :=
    fun erasure member => decide_eq_true (StagedRow.range_of_mem_noted member).1
  have found := @Scratch.filterMap_locatePending? _ (store.merged draft)
    ((store.contents.zip draft.rows).drop store.layout.exclusive) store.layout.exclusive []
    (by simp) rfl
  rw [tidily.erasures, List.filter_append, List.filter_eq_self.2 after, List.filter_eq_nil_iff.2,
    List.nil_append]
  · exact found
  · intro erasure member
    have range := (StagedRow.range_of_mem_noted member).2
    rw [tidily.length_stageExclusive, Nat.zero_add] at range
    simpa using range

end MergesTidily

/-- Erasing leaves every row without its erased entries, and counts the cells that it removes. -/
theorem erase_merged (tidily : store.MergesTidily draft) :
    (store.merged draft).erase store.layout.exclusive draft.erasures =
      (store.swept draft, ((store.staged draft).flatMap StagedRow.dropped).length) := by
  have tidyExclusive := tidily.tidy_exclusive
  have tidyFixed := tidily.tidy_fixed
  have marked := Scratch.mark_spread [] tidyExclusive
  have markedPending := Scratch.markPending_spreadRows [] tidyFixed
  simp only [List.length_nil, List.nil_append] at marked markedPending
  obtain ⟨buffer, isMarked⟩ : ∃ buffer, buffer = { store.merged draft with
      cells := Scratch.mark (store.merged draft).cells
        (StagedRow.spread 0 (store.stageExclusive draft))
      pending := Scratch.markPending (store.merged draft).pending
        (StagedRow.spreadRows 0 (store.stageFixed draft)) } := ⟨_, rfl⟩
  have compacted := @Scratch.compact_unless_nothing _ buffer _ tidyExclusive
    (isMarked ▸ marked) (isMarked ▸ rfl)
  have swept := Scratch.filled_unless_nothing tidyFixed
  have pending : buffer.pending =
      (store.stageFixed draft).map fun (number, row) => (number, row.marked) :=
    isMarked ▸ markedPending
  have count : (StagedRow.spread 0 (store.stageExclusive draft)).length +
      (StagedRow.spreadRows 0 (store.stageFixed draft)).length =
        ((store.staged draft).flatMap StagedRow.dropped).length := by
    rw [staged, List.flatMap_append, List.length_append]
    exact congrArg₂ (· + ·) (StagedRow.length_places 0 tidyExclusive)
      (StagedRow.length_places 0 fun row member => by
        obtain ⟨pending, listed, rfl⟩ := List.mem_map.1 member
        exact tidyFixed pending listed)
  simp only [Scratch.erase, tidily.positions, tidily.marks, count, ← isMarked, compacted]
  refine congrArg (·, _) ?_
  rw [Store.swept, ← swept, pending]
  split <;> rfl

end Store

end Subdomain

import Subdomain.Proofs.Sparse.Placement
import Subdomain.Proofs.Sparse.StagedRow

/-!
# Marking what is erased

A commit looks the erased entries of a draft up in the merged rows and marks the cells that it finds.  The
exclusive rows lie back to back in one buffer and the others have a buffer each, but either way each row is
marked by itself: at the places of its own erased entries.
-/

namespace Subdomain

/-! ## Searching and marking a row -/

namespace Cell

variable {τ : Type}

/-- In an ascending row a search finds the place of an entry. -/
theorem position?_search {row : List (Cell τ)} (ascending : Ascending row) (entry : UInt64)
    (position : Nat) :
    (search row entry).position? = some position ↔
      ∃ cell, row[position]? = some cell ∧ cell.entry = entry := by
  have ends : ∀ {cell}, row[position]? = some cell → cell.entry = entry →
      (row.takeWhile (·.entry < entry)).length = position := by
    intro cell found same
    obtain ⟨inside, located⟩ := List.getElem?_eq_some_iff.1 found
    have split := List.take_append_drop position row
    rw [List.drop_eq_getElem_cons inside, located] at split
    rw [← split] at ascending ⊢
    have below := (List.pairwise_append.1 ascending).2.2
    rw [List.takeWhile_append_of_pos, List.takeWhile_cons_of_neg, List.append_nil,
      List.length_take_of_le (Nat.le_of_lt inside)]
    · simp [same]
    · intro other member
      simpa [same] using below other member cell List.mem_cons_self
  simp only [search]
  constructor
  · intro found
    split at found
    next hit =>
      cases found
      obtain ⟨cell, located, same⟩ := Option.any_eq_true _ _ |>.1 hit
      exact ⟨cell, located, eq_of_beq same⟩
    next => cases found
  · rintro ⟨cell, found, same⟩
    rw [ends found same, if_pos (by simp [found, same])]
    rfl

@[simp] theorem isVacant_vacate (cell : Cell τ) : cell.vacate.isVacant = true := by
  simp [vacate, isVacant]

end Cell

namespace Scratch

variable {τ : Type}

/-- Marking changes the cells at the given positions and no others. -/
theorem getElem?_mark (cells : List (Cell τ)) (positions : List Nat) (index : Nat) :
    (mark cells positions)[index]? =
      cells[index]?.map fun cell => if index ∈ positions then cell.vacate else cell := by
  induction positions generalizing cells with
  | nil => simp [mark]
  | cons position positions ih =>
      have step : mark cells (position :: positions) =
          mark (cells.modify position Cell.vacate) positions := rfl
      rw [step, ih, List.getElem?_modify]
      cases cells[index]? with
      | none => rfl
      | some cell =>
          by_cases here : index = position
          · -- A cell marked twice is marked as if once.
            subst here
            by_cases later : index ∈ positions <;> simp [later, Cell.vacate]
          · have apart : ¬ position = index := fun same => here same.symm
            simp [here, apart]

theorem length_mark (cells : List (Cell τ)) (positions : List Nat) :
    (mark cells positions).length = cells.length := by
  induction positions generalizing cells with
  | nil => rfl
  | cons position positions ih => exact (ih _).trans (List.length_modify ..)

end Scratch

namespace StagedRow

variable {τ : Type} {row : StagedRow τ}

/-- A merged row in order, without a cell that looks erased before it is marked. -/
structure Tidy (row : StagedRow τ) : Prop where
  ascending : Cell.Ascending row.merged
  filled : ∀ cell ∈ row.merged, cell.isVacant = false

/-- Where in the merged row the erased entries are. -/
def positions (row : StagedRow τ) : List Nat :=
  row.erased.toList.filterMap fun entry => (Cell.search row.merged entry).position?

/-- The merged row with its erased entries marked. -/
def marked (row : StagedRow τ) : List (Cell τ) :=
  row.merged.map fun cell => if cell.entry ∈ row.erased then cell.vacate else cell

theorem length_marked (row : StagedRow τ) : row.marked.length = row.merged.length :=
  List.length_map ..

theorem Tidy.mem_positions (tidy : row.Tidy) {position : Nat} :
    position ∈ row.positions ↔
      ∃ cell, row.merged[position]? = some cell ∧ cell.entry ∈ row.erased := by
  simp only [positions, List.mem_filterMap, Cell.position?_search tidy.ascending,
    SortedSet.mem_toList]
  constructor
  · rintro ⟨entry, member, cell, found, rfl⟩
    exact ⟨cell, found, member⟩
  · rintro ⟨cell, found, member⟩
    exact ⟨cell.entry, member, cell, found, rfl⟩

theorem Tidy.mark_positions (tidy : row.Tidy) :
    Scratch.mark row.merged row.positions = row.marked := by
  apply List.ext_getElem?
  intro index
  rw [Scratch.getElem?_mark, marked, List.getElem?_map]
  cases found : row.merged[index]? with
  | none => rfl
  | some cell => simp [tidy.mem_positions, found]

/-- Taking out the marked cells leaves the row without its erased entries. -/
theorem Tidy.filled_marked (tidy : row.Tidy) : Cell.filled row.marked = row.kept := by
  have survives : ∀ cell ∈ row.merged,
      (!(if cell.entry ∈ row.erased then cell.vacate else cell).isVacant) =
        decide (cell.entry ∉ row.erased) := by
    intro cell member
    by_cases gone : cell.entry ∈ row.erased <;> simp [gone, tidy.filled cell member]
  have unchanged : ∀ cell ∈ row.kept,
      (if cell.entry ∈ row.erased then cell.vacate else cell) = cell := by
    intro cell member
    have stays := of_decide_eq_true (List.mem_filter.1 member).2
    rw [if_neg stays]
  rw [Cell.filled, marked, List.filter_map, Function.comp_def, List.filter_congr survives]
  exact (List.map_congr_left unchanged).trans (List.map_id _)

/-- A row in which no erased entry is found stays as it is. -/
theorem Tidy.marked_eq_kept (tidy : row.Tidy) (nothing : row.positions = []) :
    row.marked = row.kept := by
  have unmarked := tidy.mark_positions
  rw [nothing] at unmarked
  rw [← tidy.filled_marked, ← unmarked]
  apply Eq.symm
  apply List.filter_eq_self.2
  intro cell member
  rw [tidy.filled cell member]
  rfl

/-- As many erased entries are found as cells are removed. -/
theorem Tidy.length_positions (tidy : row.Tidy) : row.positions.length = row.dropped.length := by
  have found : row.positions.length = (row.erased.toList.filter fun entry =>
      (Cell.search row.merged entry).position?.isSome).length := by
    rw [positions, List.length_filterMap_eq_countP, List.countP_eq_length_filter]
  have distinct : (row.dropped.map Cell.entry).Nodup :=
    List.pairwise_map.2 (tidy.ascending.distinct.filter _)
  have same : (row.erased.toList.filter fun entry =>
      (Cell.search row.merged entry).position?.isSome).Perm (row.dropped.map Cell.entry) := by
    apply (List.perm_ext_iff_of_nodup (row.erased.nodup_toList.filter _) distinct).2
    intro entry
    simp only [List.mem_filter, Option.isSome_iff_exists, Cell.position?_search tidy.ascending,
      SortedSet.mem_toList, List.mem_map, dropped, decide_eq_true_eq]
    constructor
    · rintro ⟨member, position, cell, located, rfl⟩
      exact ⟨cell, ⟨List.mem_of_getElem? located, member⟩, rfl⟩
    · rintro ⟨cell, ⟨held, member⟩, rfl⟩
      obtain ⟨position, located⟩ := List.mem_iff_getElem?.1 held
      exact ⟨member, position, cell, located, rfl⟩
  rw [found, same.length_eq, List.length_map]

end StagedRow

/-! ## Looking the erasures up -/

namespace StagedRow

variable {τ : Type}

/-- The erasures of numbered rows, as a draft lists them. -/
def noted (start : Nat) (rows : List (StagedRow τ)) : List (Nat × UInt64) :=
  (rows.zipIdx start).flatMap fun (row, number) => row.erased.toList.map (number, ·)

theorem noted_cons (start : Nat) (row : StagedRow τ) (rows : List (StagedRow τ)) :
    noted start (row :: rows) =
      row.erased.toList.map (start, ·) ++ noted (start + 1) rows := by
  rw [noted, List.zipIdx_cons, List.flatMap_cons]
  rfl

theorem noted_append (start : Nat) (first second : List (StagedRow τ)) :
    noted start (first ++ second) = noted start first ++ noted (start + first.length) second := by
  rw [noted, List.zipIdx_append, List.flatMap_append]
  rfl

theorem range_of_mem_noted {start number : Nat} {rows : List (StagedRow τ)} {entry : UInt64}
    (member : (number, entry) ∈ noted start rows) :
    start ≤ number ∧ number < start + rows.length := by
  obtain ⟨⟨row, index⟩, numbered, listed⟩ := List.mem_flatMap.1 member
  obtain ⟨_, _, same⟩ := List.mem_map.1 listed
  cases same
  exact ⟨List.le_snd_of_mem_zipIdx numbered, List.snd_lt_add_of_mem_zipIdx numbered⟩

/-- Where the erased entries of rows are, given how a row and a position in it are told and how far it is
from one row to the next. -/
def places {β : Type} (place : Nat → Nat → β) (width : StagedRow τ → Nat) (start : Nat) :
    List (StagedRow τ) → List β
  | [] => []
  | row :: rows => row.positions.map (place start) ++ places place width (start + width row) rows

variable {β : Type} {place : Nat → Nat → β} {width : StagedRow τ → Nat} {rows : List (StagedRow τ)}

theorem length_places (start : Nat) (tidy : ∀ row ∈ rows, row.Tidy) :
    (places place width start rows).length = (rows.flatMap dropped).length := by
  induction rows generalizing start with
  | nil => rfl
  | cons row rows ih =>
      have head := (tidy row List.mem_cons_self).length_positions
      have rest := ih (start + width row) fun other member =>
        tidy other (List.mem_cons_of_mem _ member)
      rw [places, List.length_append, List.length_map, head, rest, List.flatMap_cons,
        List.length_append]

/-- Nothing is found in any row if nothing is found at all. -/
theorem positions_of_places {start : Nat} (nothing : places place width start rows = []) :
    ∀ row ∈ rows, row.positions = [] := by
  induction rows generalizing start with
  | nil => simp
  | cons row rows ih =>
      obtain ⟨head, rest⟩ := List.append_eq_nil_iff.1 nothing
      intro other member
      rcases List.mem_cons.1 member with rfl | later
      · exact List.map_eq_nil_iff.1 head
      · exact ih rest other later

/-- The places in rows that lie back to back. -/
def spread (start : Nat) (rows : List (StagedRow τ)) : List Nat :=
  places (· + ·) (·.merged.length) start rows

theorem spread_cons (start : Nat) (row : StagedRow τ) (rows : List (StagedRow τ)) :
    spread start (row :: rows) =
      row.positions.map (start + ·) ++ spread (start + row.merged.length) rows := rfl

/-- The places in rows that have a buffer each. -/
def spreadRows (index : Nat) (rows : List (Nat × StagedRow τ)) : List (Nat × Nat) :=
  places Prod.mk (fun _ => 1) index (rows.map Prod.snd)

theorem spreadRows_cons (index : Nat) (row : Nat × StagedRow τ) (rows : List (Nat × StagedRow τ)) :
    spreadRows index (row :: rows) =
      row.2.positions.map (index, ·) ++ spreadRows (index + 1) rows := rfl

end StagedRow

namespace Scratch

variable {τ : Type} {scratch : Scratch τ}

/-- The erasures of the exclusive rows are found in the buffer: by induction on the rows, with the
cells and the extents of the rows passed in front. -/
theorem filterMap_locate? {front : List (Cell τ)} {before : List Extent} {rows : List (StagedRow τ)}
    (cells : scratch.cells = front ++ (rows.map StagedRow.merged).flatten)
    (extents : scratch.extents =
      before ++ Extent.consecutive front.length (rows.map fun row => row.merged.length)) :
    (StagedRow.noted before.length rows).filterMap (fun (row, entry) => scratch.locate? row entry) =
      StagedRow.spread front.length rows := by
  induction rows generalizing front before with
  | nil => rfl
  | cons row rows ih =>
      have located : scratch.extents[before.length]? = some ⟨front.length, row.merged.length⟩ := by
        simp [extents, Extent.consecutive]
      have slice : Extent.slice ⟨front.length, row.merged.length⟩ scratch.cells = row.merged := by
        rw [cells, List.map_cons, List.flatten_cons]
        simp [Extent.slice]
      have head : ∀ entry, scratch.locate? before.length entry =
          (Cell.search row.merged entry).position?.map (front.length + ·) := by
        intro entry
        simp only [locate?, located, Option.bind_eq_bind, Option.bind_some, slice]
        exact Option.map_eq_bind.symm
      have rest := @ih (front ++ row.merged) (before ++ [⟨front.length, row.merged.length⟩])
        (by simp [cells]) (by simp [extents, Extent.consecutive])
      rw [List.length_append, List.length_append, List.length_singleton] at rest
      rw [StagedRow.noted_cons, List.filterMap_append, rest, List.filterMap_map,
        StagedRow.spread_cons, StagedRow.positions, List.map_filterMap]
      exact congrArg (· ++ _) (List.filterMap_congr fun entry _ => head entry)

/-- The shared and ghost rows to be written, as a commit holds them. -/
def pendingCells (rows : List (Nat × StagedRow τ)) : List (Nat × List (Cell τ)) :=
  rows.map fun (number, row) => (number, row.merged)

/-- The erasures of the shared and ghost rows are found in the rows to be written: by induction on all
of these rows, with the rows to be written that are passed in front.  A row that is left out has no
erasures. -/
theorem filterMap_locatePending? {pairs : List (List (Cell τ) × DraftRow τ)} {start : Nat}
    {front : List (Nat × List (Cell τ))} (passed : ∀ row ∈ front, row.1 < start)
    (pending : scratch.pending = front ++ pendingCells (Store.pendingRows pairs start)) :
    (StagedRow.noted start (pairs.map fun (existing, row) => .ofRow existing row)).filterMap
        (fun (row, entry) => scratch.locatePending? row entry) =
      StagedRow.spreadRows front.length (Store.pendingRows pairs start) := by
  induction pairs generalizing start front with
  | nil => rfl
  | cons pair pairs ih =>
      obtain ⟨existing, row⟩ := pair
      rw [List.map_cons, StagedRow.noted_cons, List.filterMap_append]
      rw [Store.pendingRows_cons] at pending ⊢
      have later : ∀ row ∈ front, row.1 < start + 1 :=
        fun row member => Nat.lt_succ_of_lt (passed row member)
      cases changed : row.isPending with
      | false =>
          have nothing := (StagedRow.merged_of_not_isPending existing changed).2
          rw [changed] at pending
          have rest := ih later pending
          simp only [StagedRow.ofRow, nothing, List.map_nil, List.filterMap_nil, List.nil_append]
          exact rest
      | true =>
          rw [changed, if_pos rfl] at pending
          let staged := StagedRow.ofRow existing row
          have placed : scratch.pending.findIdx? (·.1 == start) = some front.length := by
            have absent : front.findIdx? (·.1 == start) = none := by
              apply List.findIdx?_eq_none_iff.2
              intro row member
              exact beq_false_of_ne (Nat.ne_of_lt (passed row member))
            simp [pending, List.findIdx?_append, absent, pendingCells, List.findIdx?_cons]
          have held : scratch.pending[front.length]? = some (start, staged.merged) := by
            simp [pending, pendingCells, staged]
          have head : ∀ entry, scratch.locatePending? start entry =
              (Cell.search staged.merged entry).position?.map (front.length, ·) := by
            intro entry
            simp only [locatePending?, placed, held, Option.bind_eq_bind, Option.bind_some]
            exact Option.map_eq_bind.symm
          have rest := @ih (start + 1) (front ++ [(start, staged.merged)]) ?_ ?_
          · rw [List.length_append, List.length_singleton] at rest
            rw [rest, List.filterMap_map, if_pos rfl, StagedRow.spreadRows_cons, StagedRow.positions,
              List.map_filterMap]
            exact congrArg (· ++ _) (List.filterMap_congr fun entry _ => head entry)
          · intro row member
            rcases List.mem_append.1 member with old | new
            · exact later row old
            · rw [List.mem_singleton.1 new]
              exact Nat.lt_succ_self start
          · simp [pending, pendingCells, staged]

/-! ## Marking -/

theorem mark_append (cells : List (Cell τ)) (first second : List Nat) :
    mark cells (first ++ second) = mark (mark cells first) second := List.foldl_append ..

/-- Marking in a part of the buffer leaves the rest alone. -/
theorem mark_between (front cells rest : List (Cell τ)) {positions : List Nat}
    (within : ∀ position ∈ positions, position < cells.length) :
    mark (front ++ (cells ++ rest)) (positions.map (front.length + ·)) =
      front ++ (mark cells positions ++ rest) := by
  apply List.ext_getElem?
  intro index
  rw [getElem?_mark]
  rcases Nat.lt_or_ge index front.length with before | after
  · have unmarked : index ∉ positions.map (front.length + ·) := by
      rintro member
      obtain ⟨position, _, rfl⟩ := List.mem_map.1 member
      omega
    rw [List.getElem?_append_left before, List.getElem?_append_left before]
    simp [unmarked]
  · obtain ⟨offset, rfl⟩ := Nat.exists_eq_add_of_le after
    have same : front.length + offset ∈ positions.map (front.length + ·) ↔ offset ∈ positions := by
      simp
    rw [List.getElem?_append_right after, List.getElem?_append_right after, Nat.add_sub_cancel_left]
    have length : (mark cells positions).length = cells.length := length_mark cells positions
    rcases Nat.lt_or_ge offset cells.length with inside | beyond
    · rw [List.getElem?_append_left inside, List.getElem?_append_left (length ▸ inside),
        getElem?_mark]
      simp only [same]
    · have unmarked : offset ∉ positions := fun member =>
        Nat.not_lt.2 beyond (within offset member)
      rw [List.getElem?_append_right beyond, List.getElem?_append_right (length ▸ beyond), length]
      simp [same, unmarked]

/-- Marking all that was found marks every row by itself. -/
theorem mark_spread (front : List (Cell τ)) {rows : List (StagedRow τ)}
    (tidy : ∀ row ∈ rows, row.Tidy) :
    mark (front ++ (rows.map StagedRow.merged).flatten) (StagedRow.spread front.length rows) =
      front ++ (rows.map StagedRow.marked).flatten := by
  induction rows generalizing front with
  | nil => rfl
  | cons row rows ih =>
      have head := tidy row List.mem_cons_self
      have within : ∀ position ∈ row.positions, position < row.merged.length := by
        intro position member
        obtain ⟨_, found, _⟩ := head.mem_positions.1 member
        exact (List.getElem?_eq_some_iff.1 found).1
      have later := ih (front ++ row.marked) fun other member =>
        tidy other (List.mem_cons_of_mem _ member)
      rw [List.length_append, row.length_marked, List.append_assoc, List.append_assoc] at later
      rw [List.map_cons, List.flatten_cons, StagedRow.spread_cons, mark_append, mark_between _ _ _ within,
        head.mark_positions, later, List.map_cons, List.flatten_cons]

theorem markPending_row (front rest : List (Nat × List (Cell τ))) (number : Nat)
    (cells : List (Cell τ)) (positions : List Nat) :
    markPending (front ++ (number, cells) :: rest) (positions.map (front.length, ·)) =
      front ++ (number, mark cells positions) :: rest := by
  induction positions generalizing cells with
  | nil => rfl
  | cons position positions ih =>
      have step : (front ++ (number, cells) :: rest).modify front.length
          (Prod.map id fun cells => cells.modify position Cell.vacate) =
          front ++ (number, cells.modify position Cell.vacate) :: rest := by
        rw [List.modify_eq_take_cons_drop (by simp)]
        simp
      rw [List.map_cons, markPending, List.foldl_cons]
      dsimp only
      rw [step]
      exact ih (cells.modify position Cell.vacate)

theorem markPending_spreadRows (front : List (Nat × List (Cell τ)))
    {rows : List (Nat × StagedRow τ)} (tidy : ∀ row ∈ rows, row.2.Tidy) :
    markPending (front ++ pendingCells rows) (StagedRow.spreadRows front.length rows) =
      front ++ rows.map fun (number, row) => (number, row.marked) := by
  induction rows generalizing front with
  | nil => rfl
  | cons staged rows ih =>
      obtain ⟨number, row⟩ := staged
      have head := tidy (number, row) List.mem_cons_self
      have later := ih (front ++ [(number, row.marked)]) fun other member =>
        tidy other (List.mem_cons_of_mem _ member)
      rw [List.length_append, List.length_singleton, List.append_assoc, List.append_assoc,
        List.singleton_append, List.singleton_append] at later
      rw [StagedRow.spreadRows_cons, markPending, List.foldl_append]
      have marked := markPending_row front (pendingCells rows) number row.merged row.positions
      rw [head.mark_positions] at marked
      exact (congrArg (markPending · _) marked).trans later

end Scratch

end Subdomain

import Subdomain.Mesh.NeighborTable
import Subdomain.Proofs.Mesh.Blocks
import Subdomain.Proofs.Ordered
import Subdomain.Proofs.Outcome

/-!
# Compressed rows

Rows that stand one after the other in a single list are told apart by where each of them starts: a row
ends where the next one starts, and the last at the end of the list.  The block of a rank keeps the rows
of its cells in this way.  Blocks tile the ids, so the blocks of all ranks keep one row for each id.
-/

namespace Subdomain

namespace GraphBlock

/-! ## Starts -/

section Starts

variable {start later : Nat} {lengths : List Nat}

theorem length_runningStarts (start : Nat) (lengths : List Nat) :
    (runningStarts start lengths).length = lengths.length + 1 := by
  induction lengths generalizing start with
  | nil => rfl
  | cons length lengths ih => rw [runningStarts, List.length_cons, ih, List.length_cons]

theorem getElem?_runningStarts_zero (start : Nat) (lengths : List Nat) :
    (runningStarts start lengths)[0]? = some start := by
  cases lengths with
  | nil => rfl
  | cons length lengths => rfl

/-- A run starts as far on as the runs in front of it reach: by induction on those, from wherever the
first of them starts. -/
theorem getElem?_runningStarts {α : Type} (start : Nat) (front back : List (List α)) :
    (runningStarts start ((front ++ back).map List.length))[front.length]? =
      some (start + front.flatten.length) := by
  induction front generalizing start with
  | nil => exact getElem?_runningStarts_zero ..
  | cons run front ih =>
      rw [List.cons_append, List.map_cons, runningStarts, List.length_cons, List.getElem?_cons_succ, ih,
        List.flatten_cons, List.length_append, Nat.add_assoc]

theorem le_of_mem_runningStarts (member : later ∈ runningStarts start lengths) : start ≤ later := by
  induction lengths generalizing start with
  | nil => exact Nat.le_of_eq (List.mem_singleton.1 member).symm
  | cons length lengths ih =>
      cases List.mem_cons.1 member with
      | inl same => exact Nat.le_of_eq same.symm
      | inr member => exact Nat.le_trans (Nat.le_add_right start length) (ih member)

theorem pairwise_runningStarts (start : Nat) (lengths : List Nat) :
    (runningStarts start lengths).Pairwise (· ≤ ·) := by
  induction lengths generalizing start with
  | nil => exact List.pairwise_singleton ..
  | cons length lengths ih =>
      refine List.pairwise_cons.2 ⟨?_, ih (start + length)⟩
      intro later member
      exact Nat.le_trans (Nat.le_add_right start length) (le_of_mem_runningStarts member)

end Starts

/-! ## Rows -/

variable {block : GraphBlock} {rows : List (List EntityId)} {position : Nat}

/-- A block that keeps some rows, one after the other. -/
structure Keeps (block : GraphBlock) (rows : List (List EntityId)) : Prop where
  rowStarts : block.rowStarts = runningStarts 0 (rows.map List.length)
  targets : block.targets = rows.flatten

theorem Keeps.length_rowStarts (keeps : block.Keeps rows) :
    block.rowStarts.length = rows.length + 1 := by
  rw [keeps.rowStarts, length_runningStarts, List.length_map]

theorem Keeps.numLocal (keeps : block.Keeps rows) : block.numLocal = rows.length := by
  rw [GraphBlock.numLocal, keeps.length_rowStarts, Nat.add_sub_cancel]

/-- A row starts where the rows in front of it end. -/
theorem Keeps.getElem?_rowStarts {front back : List (List EntityId)}
    (keeps : block.Keeps (front ++ back)) :
    block.rowStarts[front.length]? = some front.flatten.length := by
  rw [keeps.rowStarts, getElem?_runningStarts, Nat.zero_add]

theorem Keeps.getLast?_rowStarts (keeps : block.Keeps rows) :
    block.rowStarts.getLast? = some block.targets.length := by
  have all : block.Keeps (rows ++ []) := (List.append_nil rows).symm ▸ keeps
  rw [List.getLast?_eq_getElem?, keeps.length_rowStarts, Nat.add_sub_cancel, all.getElem?_rowStarts,
    keeps.targets]

/-- A row is read back from its place. -/
theorem Keeps.neighborsOf_length {front back : List (List EntityId)} {row : List EntityId}
    (keeps : block.Keeps (front ++ row :: back)) : block.neighborsOf front.length = .ok row := by
  have start := keeps.getElem?_rowStarts
  have stop : block.rowStarts[front.length + 1]? = some (front.flatten.length + row.length) := by
    have next : block.Keeps ((front ++ [row]) ++ back) := by
      rwa [List.append_assoc, List.singleton_append]
    have found := next.getElem?_rowStarts
    rwa [List.length_append, List.flatten_append, List.length_append, List.flatten_singleton] at found
  have targets : block.targets = front.flatten ++ (row ++ back.flatten) := by
    rw [keeps.targets, List.flatten_append, List.flatten_cons]
  have within : front.flatten.length + row.length ≤ block.targets.length := by
    rw [targets, List.length_append, List.length_append]
    omega
  rw [neighborsOf, start, stop]
  simp only [Nat.le_add_right, within, and_self, if_true]
  rw [targets, List.drop_left, Nat.add_sub_cancel_left, List.take_left]

theorem Keeps.neighborsOf (keeps : block.Keeps rows) {row : List EntityId}
    (found : rows[position]? = some row) : block.neighborsOf position = .ok row := by
  have inside := (List.getElem?_eq_some_iff.1 found).1
  have read := Keeps.neighborsOf_length (split_of_getElem? found ▸ keeps)
  rwa [List.length_take_of_le (Nat.le_of_lt inside)] at read

end GraphBlock

/-! ## Blocks of an adjacency -/

namespace Adjacency

variable {adjacency : Adjacency} {thruDim : Nat} {cell other : EntityId}

/-- The neighbors of a cell, without the cell itself. -/
def rowOf (adjacency : Adjacency) (thruDim : Nat) (cell : EntityId) : IdSet :=
  (adjacency.neighbors (.singleton cell) thruDim).filter (· != cell)

theorem mem_rowOf_iff :
    other ∈ adjacency.rowOf thruDim cell ↔
      other ∈ adjacency.neighbors (.singleton cell) thruDim ∧ other ≠ cell := by
  rw [rowOf, SortedSet.mem_filter, bne_iff_ne]

/-- The row of a cell is the only ascending list of its members. -/
theorem eq_toList_rowOf {row : List EntityId} (ascending : row.Pairwise (· < ·))
    (members : ∀ other, other ∈ row ↔
      other ∈ adjacency.neighbors (.singleton cell) thruDim ∧ other ≠ cell) :
    row = (adjacency.rowOf thruDim cell).toList := by
  rw [← SortedSet.toList_ofList ascending]
  congr 1
  ext other
  rw [SortedSet.mem_ofList, members, mem_rowOf_iff]

/-- The id with a number, and its row. -/
def numberedRow (adjacency : Adjacency) (thruDim number : Nat) : EntityId × List EntityId :=
  (.ofNat number, (adjacency.rowOf thruDim (.ofNat number)).toList)

end Adjacency

namespace GraphBlock

variable {adjacency : Adjacency} {blocks : Blocks} {block : GraphBlock} {numbers : Interval}
  {rank : Rank} {thruDim : Nat}

/-- A block with the full rows of the ids of an interval, one for each id. -/
structure Holds (block : GraphBlock) (adjacency : Adjacency) (thruDim : Nat) (numbers : Interval) :
    Prop where
  localIds : block.localIds = .ok numbers
  numLocal : block.numLocal = numbers.stop - numbers.start
  length_rowStarts : block.rowStarts.length = block.numLocal + 1
  head?_rowStarts : block.rowStarts.head? = some 0
  getLast?_rowStarts : block.rowStarts.getLast? = some block.targets.length
  pairwise_rowStarts : block.rowStarts.Pairwise (· ≤ ·)
  /-- At each position there is a row: the neighbors of the id there, other than itself, ascending. -/
  neighborsOf : ∀ position < block.numLocal, ∃ row,
    block.neighborsOf position = .ok row ∧ row.Pairwise (· < ·) ∧
      let cell : EntityId := .ofNat (numbers.start + position)
      ∀ other, other ∈ row ↔ other ∈ adjacency.neighbors (.singleton cell) thruDim ∧ other ≠ cell

theorem keeps_ofAdjacency (adjacency : Adjacency) (blocks : Blocks) (rank : Rank) (thruDim : Nat) :
    (ofAdjacency adjacency blocks rank thruDim).Keeps ((blocks.interval rank.toNat).toList.map
      fun number => (adjacency.rowOf thruDim (.ofNat number)).toList) :=
  ⟨rfl, rfl⟩

theorem holds_ofAdjacency (adjacency : Adjacency) (thruDim : Nat) (inside : rank.toNat < blocks.size) :
    (ofAdjacency adjacency blocks rank thruDim).Holds adjacency thruDim
      (blocks.interval rank.toNat) := by
  have keeps := keeps_ofAdjacency adjacency blocks rank thruDim
  have numLocal : (ofAdjacency adjacency blocks rank thruDim).numLocal =
      blocks.length rank.toNat := by
    rw [keeps.numLocal, List.length_map, Interval.toList, List.length_range']
    rfl
  refine ⟨localIds_ofAdjacency inside, numLocal, ?_, ?_, keeps.getLast?_rowStarts, ?_, ?_⟩
  · rw [keeps.length_rowStarts, keeps.numLocal]
  · rw [List.head?_eq_getElem?, keeps.rowStarts, getElem?_runningStarts_zero]
  · rw [keeps.rowStarts]
    exact pairwise_runningStarts ..
  · intro position inBlock
    refine ⟨_, keeps.neighborsOf ?_, SortedSet.pairwise_lt _, fun other => Adjacency.mem_rowOf_iff⟩
    rw [numLocal, Blocks.length] at inBlock
    rw [List.getElem?_map, Interval.toList, List.getElem?_range' inBlock, Nat.one_mul]
    rfl

/-- The ids of a block, each with its row. -/
def numberedRows (block : GraphBlock) : Except Error (List (EntityId × List EntityId)) := do
  let numbers ← block.localIds
  numbers.toList.zipIdx.mapM fun (number, position) => do
    return (.ofNat number, ← block.neighborsOf position)

theorem Holds.numberedRows (holds : block.Holds adjacency thruDim numbers) :
    block.numberedRows = .ok (numbers.toList.map (adjacency.numberedRow thruDim)) := by
  have each : ∀ entry ∈ numbers.toList.zipIdx,
      (do return (UInt64.ofNat entry.1, ← block.neighborsOf entry.2)) =
        (.ok (adjacency.numberedRow thruDim entry.1) : Except Error _) := by
    rintro ⟨number, position⟩ member
    have found := List.mk_mem_zipIdx_iff_getElem?.1 member
    rcases List.getElem?_eq_some_iff.1 found with ⟨inside, located⟩
    rw [Interval.toList, List.length_range', ← holds.numLocal] at inside
    simp only [Interval.toList, List.getElem_range', Nat.one_mul] at located
    rcases holds.neighborsOf position inside with ⟨row, read, ascending, members⟩
    rw [located] at members
    rw [read, Adjacency.eq_toList_rowOf ascending members]
    rfl
  calc block.numberedRows
    _ = .ok (numbers.toList.zipIdx.map fun entry => adjacency.numberedRow thruDim entry.1) := by
      rw [GraphBlock.numberedRows, holds.localIds]
      exact mapM_eq_ok_map each
    _ = .ok ((numbers.toList.zipIdx.map Prod.fst).map (adjacency.numberedRow thruDim)) := by
      rw [List.map_map]
      rfl
    _ = .ok (numbers.toList.map (adjacency.numberedRow thruDim)) := by
      rw [List.zipIdx_map_fst]

/-! ## Main result -/

/-- Whatever an adjacency answers, the block of each rank holds the full rows of the ids in its interval.
All blocks together hold one row for each id, in the order of the ids. -/
theorem blocks_hold_rows (adjacency : Adjacency) (total : UInt64) (size : Rank) (thruDim : Nat)
    (occupied : 0 < size) :
    let blocks : Blocks := .split total.toNat size.toNat
    let block (rank : Rank) : GraphBlock := .ofAdjacency adjacency blocks rank thruDim
    (∀ rank < size, (block rank).Holds adjacency thruDim (blocks.interval rank.toNat)) ∧
      ∃ held, (ranksBelow size).mapM (fun rank => (block rank).numberedRows) = .ok held ∧
        held.flatten = (List.range total.toNat).map (adjacency.numberedRow thruDim) := by
  intro blocks block
  have number : blocks.size = size.toNat := Nat.max_eq_left occupied
  have holds : ∀ rank < size,
      (block rank).Holds adjacency thruDim (blocks.interval rank.toNat) := by
    intro rank inside
    exact holds_ofAdjacency adjacency thruDim (number.symm ▸ inside)
  refine ⟨holds, _, mapM_eq_ok_map fun rank member =>
    (holds rank (mem_ranksBelow.1 member)).numberedRows, ?_⟩
  have ids : (ranksBelow size).flatMap (fun rank => (blocks.interval rank.toNat).toList) =
      List.range total.toNat := by
    have each : ∀ rank ∈ List.range size.toNat,
        (blocks.interval (UInt64.ofNat rank).toNat).toList = (blocks.interval rank).toList := by
      intro rank member
      rw [UInt64.toNat_ofNat_of_lt' (Nat.lt_trans (List.mem_range.1 member) size.toNat_lt)]
    rw [ranksBelow, List.flatMap_map, List.flatMap_congr each, ← number,
      blocks.flatMap_toList_interval (Nat.le_refl _), blocks.boundary_size]
    rfl
  rw [← ids, List.map_flatMap]
  rfl

/-- Three cells, of which the first is in its own row, in four blocks, of which the last is empty. -/
theorem blocks_hold_rows_threeCells :
    let table := NeighborTable.ofRows [(0, [0, 1]), (1, [0, 2]), (2, [1])]
    let block (rank : Rank) : GraphBlock := .ofAdjacency table.adjacency (.split 3 4) rank 0
    (block 3).localIds = .ok ⟨3, 3⟩ ∧ (block 3).rowStarts.length = 1 ∧
      (∃ row, (block 0).neighborsOf 0 = .ok row ∧ 1 ∈ row ∧ 0 ∉ row) ∧
      ∃ held, (ranksBelow 4).mapM (fun rank => (block rank).numberedRows) = .ok held ∧
        held.flatten.length = 3 := by
  intro table block
  obtain ⟨holds, held, read, rows⟩ := blocks_hold_rows table.adjacency 3 4 0 (by decide)
  have first := holds 0 (by decide)
  have last := holds 3 (by decide)
  refine ⟨last.localIds, last.length_rowStarts.trans ?_, ?_, held, read, ?_⟩
  · rw [last.numLocal]
    rfl
  · rcases first.neighborsOf 0 (by rw [first.numLocal]; decide) with ⟨row, found, -, members⟩
    refine ⟨row, found, (members 1).2 (by decide), ?_⟩
    intro itself
    exact ((members 0).1 itself).2 rfl
  · rw [rows, List.length_map, List.length_range]
    rfl

end GraphBlock

end Subdomain

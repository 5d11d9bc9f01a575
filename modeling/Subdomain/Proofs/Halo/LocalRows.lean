import Subdomain.Proofs.Halo.Consistency

/-!
# Local rows

A field has a row for each entity that a rank knows, region after region, and a coloring lists the
entities of its regions in the same order.  A coloring that passes its check lists none of them twice.  So
every row stands for one entity, and the region of the row is the one that has the record of the entity.
-/

namespace Subdomain

namespace Layout

variable {layout : Layout} {row : Nat} {region : Region}

/-- The regions do not overlap, so the first that has a row is the only one. -/
theorem regionOf_eq_some_iff : layout.regionOf row = some region ↔ row ∈ layout.rows region := by
  rw [regionOf]
  cases region with
  | exclusive => grind [rows, Interval.mem_mk]
  | shared => grind [rows, Interval.mem_mk]
  | ghost => grind [rows, Interval.mem_mk]

theorem regionOf_eq_none_iff : layout.regionOf row = none ↔ layout.numRows ≤ row := by
  rw [regionOf]
  grind [rows, numRows, Interval.mem_mk]

theorem exists_regionOf (inside : row < layout.numRows) :
    ∃ region, layout.regionOf row = some region := by
  apply Option.ne_none_iff_exists'.1
  rw [ne_eq, regionOf_eq_none_iff]
  exact Nat.not_le_of_lt inside

/-- Regions follow one another from the first row to the last. -/
theorem rows_tile (layout : Layout) :
    (layout.rows .exclusive).start = 0 ∧
      (layout.rows .shared).start = (layout.rows .exclusive).stop ∧
      (layout.rows .ghost).start = (layout.rows .shared).stop ∧
      (layout.rows .ghost).stop = layout.numRows ∧
      ∀ region, (layout.rows region).start ≤ (layout.rows region).stop := by
  refine ⟨rfl, rfl, rfl, rfl, ?_⟩
  intro region
  cases region with
  | exclusive => exact Nat.zero_le _
  | shared => exact Nat.le_add_right _ _
  | ghost => exact Nat.le_add_right _ _

theorem checkRow_eq_error_iff :
    layout.checkRow row = .error (.rowOutOfBounds row layout.numRows) ↔ layout.numRows ≤ row := by
  rw [checkRow]
  by_cases inside : row < layout.numRows
  · rw [if_pos inside]
    exact iff_of_false nofun (Nat.not_le_of_lt inside)
  · rw [if_neg inside]
    exact iff_of_true rfl (Nat.le_of_not_lt inside)

theorem checkRow_eq_ok_iff : layout.checkRow row = .ok () ↔ row < layout.numRows := by
  rw [checkRow]
  by_cases inside : row < layout.numRows
  · rw [if_pos inside]
    exact iff_of_true rfl inside
  · rw [if_neg inside]
    exact iff_of_false nofun inside

end Layout

/-- Records in order have their ids in order, if not strictly. -/
theorem EntityRecord.id_le_of_compare {first second : EntityRecord}
    (before : compare first second = .lt) : first.id ≤ second.id := by
  have fields : order first second = .lt := before
  rw [order, compareLex, Ordering.then_eq_lt] at fields
  cases fields with
  | inl less => exact UInt64.le_of_lt (Std.compare_eq_lt.1 less)
  | inr equal => exact UInt64.le_of_eq (Std.LawfulEqOrd.eq_of_compare equal.1)

namespace Coloring

variable {coloring : Coloring} {region : Region} {row : Nat} {id : EntityId}

/-- The records of a region. -/
def recordsIn (coloring : Coloring) : Region → RecordSet
  | .exclusive => coloring.exclusive
  | .shared => coloring.shared
  | .ghost => coloring.ghost

/-- The ids of a region, record after record. -/
def idsIn (coloring : Coloring) (region : Region) : List EntityId :=
  (coloring.recordsIn region).toList.map EntityRecord.id

theorem mem_idsIn : id ∈ coloring.idsIn region ↔ id ∈ idsOf (coloring.recordsIn region) := by
  rw [idsIn, idsOf, SortedSet.mem_ofList]

theorem localRows_eq (coloring : Coloring) :
    coloring.localRows =
      coloring.idsIn .exclusive ++ coloring.idsIn .shared ++ coloring.idsIn .ghost := by
  rw [localRows, ownedRecords, List.map_append, List.map_append]
  rfl

/-! ## Rows and regions -/

theorem length_idsIn (coloring : Coloring) (region : Region) :
    (coloring.idsIn region).length =
      (coloring.layout.rows region).stop - (coloring.layout.rows region).start := by
  rw [idsIn, List.length_map]
  cases region with
  | exclusive => rfl
  | shared => exact (Nat.add_sub_cancel_left ..).symm
  | ghost => exact (Nat.add_sub_cancel_left ..).symm

theorem length_localRows (coloring : Coloring) :
    coloring.localRows.length = coloring.layout.numRows := by
  rw [localRows_eq, List.length_append, List.length_append, idsIn, idsIn, idsIn, List.length_map,
    List.length_map, List.length_map]
  rfl

/-- A row of a region stands for the id at its place in the region. -/
theorem getElem?_localRows (inside : row ∈ coloring.layout.rows region) :
    coloring.localRows[row]? =
      (coloring.idsIn region)[row - (coloring.layout.rows region).start]? := by
  have exclusive : (coloring.idsIn .exclusive).length = coloring.layout.exclusive := List.length_map _
  have shared : (coloring.idsIn .shared).length = coloring.layout.shared := List.length_map _
  rw [localRows_eq]
  cases region with
  | exclusive =>
      rw [Layout.rows, Interval.mem_mk, ← exclusive] at inside
      rw [List.append_assoc, List.getElem?_append_left inside.2]
      rfl
  | shared =>
      rw [Layout.rows, Interval.mem_mk, ← exclusive, ← shared, ← List.length_append] at inside
      rw [List.getElem?_append_left inside.2, List.getElem?_append_right inside.1, exclusive]
      rfl
  | ghost =>
      rw [Layout.rows, Interval.mem_mk, ← exclusive, ← shared, ← List.length_append] at inside
      rw [List.getElem?_append_right inside.1, List.length_append, exclusive, shared]
      rfl

/-- Every id of a region has a row in it. -/
theorem exists_row (listed : id ∈ coloring.idsIn region) :
    ∃ row ∈ coloring.layout.rows region, coloring.localRows[row]? = some id := by
  rcases List.mem_iff_getElem?.1 listed with ⟨position, found⟩
  have bound := (List.getElem?_eq_some_iff.1 found).1
  rw [length_idsIn] at bound
  have inside : (coloring.layout.rows region).start + position ∈ coloring.layout.rows region :=
    ⟨Nat.le_add_right _ _, Nat.add_lt_of_lt_sub' bound⟩
  refine ⟨_, inside, ?_⟩
  rw [getElem?_localRows inside, Nat.add_sub_cancel_left, found]

/-- A summary counts the rows, as long as words can. -/
theorem total_summarize (counted : coloring.layout.numRows < UInt64.size) :
    coloring.summarize.total = coloring.layout.numRows := by
  have parts : coloring.layout.numRows =
      coloring.exclusive.size + coloring.shared.size + coloring.ghost.size := rfl
  rw [parts] at counted ⊢
  rw [summarize, Summary.total, UInt64.toNat_ofNat_of_lt' (by omega),
    UInt64.toNat_ofNat_of_lt' (by omega), UInt64.toNat_ofNat_of_lt' (by omega)]

/-! ## Accepted colorings -/

section

variable (accepted : coloring.Accepted)

include accepted

/-- No entity has two rows. -/
theorem Accepted.nodup_localRows : coloring.localRows.Nodup := by
  rw [localRows, List.map_append, List.nodup_append]
  refine ⟨accepted.distinct, accepted.ghostIds, ?_⟩
  rintro id owned _ copied rfl
  rcases List.mem_map.1 copied with ⟨ghost, member, rfl⟩
  apply accepted.foreign ghost member
  rw [ownedRecords, List.map_append, List.mem_append] at owned
  rw [accepted.primary, exclusiveIds, sharedIds, idsOf, idsOf, SortedSet.mem_ofList,
    SortedSet.mem_ofList]
  exact owned

theorem Accepted.mem_localRows_iff :
    id ∈ coloring.localRows ↔ id ∈ coloring.primary ∨ id ∈ coloring.ghostIds := by
  rw [localRows_eq, List.mem_append, List.mem_append, accepted.primary, mem_idsIn, mem_idsIn,
    mem_idsIn]
  rfl

/-- Within a region the ids ascend: records are in order, and no two of them have one id. -/
theorem Accepted.pairwise_idsIn (region : Region) : (coloring.idsIn region).Pairwise (· < ·) := by
  have inOrder : (coloring.idsIn region).Pairwise (· ≤ ·) := by
    rw [idsIn, List.pairwise_map]
    exact (coloring.recordsIn region).ascending.imp EntityRecord.id_le_of_compare
  have all := accepted.nodup_localRows
  rw [localRows_eq, List.nodup_append, List.nodup_append] at all
  have distinct : (coloring.idsIn region).Nodup := by
    cases region with
    | exclusive => exact all.1.1
    | shared => exact all.1.2.1
    | ghost => exact all.2.1
  apply (inOrder.and distinct).imp
  rintro first second ⟨before, apart⟩
  exact UInt64.lt_of_le_of_ne before apart

/-- The region of a row is the one region that has a record of the entity that the row stands for: a
second region would give the entity a second row. -/
theorem Accepted.regionOf_eq_some_iff (atRow : coloring.localRows[row]? = some id) :
    coloring.layout.regionOf row = some region ↔ id ∈ idsOf (coloring.recordsIn region) := by
  rw [← mem_idsIn, Layout.regionOf_eq_some_iff]
  constructor
  · intro inside
    rw [getElem?_localRows inside] at atRow
    exact List.mem_of_getElem? atRow
  · intro listed
    rcases exists_row listed with ⟨other, inside, atOther⟩
    have bound := (List.getElem?_eq_some_iff.1 atRow).1
    rwa [(List.getElem?_inj bound accepted.nodup_localRows).1 (atRow.trans atOther.symm)]

/-- Rows of one region stand for ids in order. -/
theorem Accepted.lt_of_lt {first second : Nat} {firstId secondId : EntityId}
    (firstInside : first ∈ coloring.layout.rows region)
    (secondInside : second ∈ coloring.layout.rows region) (before : first < second)
    (atFirst : coloring.localRows[first]? = some firstId)
    (atSecond : coloring.localRows[second]? = some secondId) : firstId < secondId := by
  rw [getElem?_localRows firstInside] at atFirst
  rw [getElem?_localRows secondInside] at atSecond
  rcases List.getElem?_eq_some_iff.1 atFirst with ⟨firstBound, rfl⟩
  rcases List.getElem?_eq_some_iff.1 atSecond with ⟨secondBound, rfl⟩
  apply List.pairwise_iff_getElem.1 (accepted.pairwise_idsIn region)
  have begun : (coloring.layout.rows region).start ≤ first := firstInside.1
  omega

end

/-! ## Main result -/

/-- The rows of a coloring that passes its check are those of its layout.  The summary counts them as far
as words can, every entity that is owned or copied has one of them and no other id has any, and they
ascend within each region.  The region of a row is the one that has a record of the row's entity; past the
last row there is no region, and rows are refused. -/
theorem localRows_match_layout (accepted : coloring.checkInvariants = .ok ()) :
    let layout := coloring.layout
    coloring.localRows.length = layout.numRows ∧
      (layout.numRows < UInt64.size → coloring.summarize.total = layout.numRows) ∧
      coloring.localRows.Nodup ∧
      (∀ id, id ∈ coloring.localRows ↔ id ∈ coloring.primary ∨ id ∈ coloring.ghostIds) ∧
      (∀ region, ∀ first ∈ layout.rows region, ∀ second ∈ layout.rows region, first < second →
        ∀ firstId secondId, coloring.localRows[first]? = some firstId →
          coloring.localRows[second]? = some secondId → firstId < secondId) ∧
      ((layout.rows .exclusive).start = 0 ∧
        (layout.rows .shared).start = (layout.rows .exclusive).stop ∧
        (layout.rows .ghost).start = (layout.rows .shared).stop ∧
        (layout.rows .ghost).stop = layout.numRows ∧
        ∀ region, (layout.rows region).start ≤ (layout.rows region).stop) ∧
      (∀ row < layout.numRows, ∃ id region, coloring.localRows[row]? = some id ∧
        layout.regionOf row = some region ∧
        ∀ other, id ∈ idsOf (coloring.recordsIn other) ↔ other = region) ∧
      ∀ row, (layout.regionOf row = none ↔ layout.numRows ≤ row) ∧
        (layout.checkRow row = .error (.rowOutOfBounds row layout.numRows) ↔ layout.numRows ≤ row) ∧
        (layout.checkRow row = .ok () ↔ row < layout.numRows) := by
  intro layout
  have accepted := checkInvariants_eq_ok_iff.1 accepted
  refine ⟨coloring.length_localRows, total_summarize, accepted.nodup_localRows,
    fun id => accepted.mem_localRows_iff, ?_, layout.rows_tile, ?_, ?_⟩
  · intro region first firstInside second secondInside before firstId secondId
    exact accepted.lt_of_lt firstInside secondInside before
  · intro row inside
    have bound : row < coloring.localRows.length := coloring.length_localRows.symm ▸ inside
    rcases Layout.exists_regionOf inside with ⟨region, found⟩
    refine ⟨_, region, List.getElem?_eq_getElem bound, found, ?_⟩
    intro other
    rw [← accepted.regionOf_eq_some_iff (List.getElem?_eq_getElem bound), found, Option.some_inj]
    exact eq_comm
  · intro row
    exact ⟨Layout.regionOf_eq_none_iff, Layout.checkRow_eq_error_iff, Layout.checkRow_eq_ok_iff⟩

/-- Rank 0 owns four cells, three of which others copy, and copies a smaller one and a larger one. -/
theorem localRows_match_layout_sixCells :
    let coloring : Coloring :=
      { primary := .ofList [3, 1, 4, 5]
        exclusive := .ofList [⟨3, 0, 1, ∅⟩]
        shared := .ofList [⟨1, 0, 0, .ofList [1]⟩, ⟨5, 0, 3, .ofList [1, 2]⟩, ⟨4, 0, 2, .ofList [2]⟩]
        ghost := .ofList [⟨8, 1, 0, ∅⟩, ⟨2, 2, 7, ∅⟩] }
    coloring.checkInvariants = .ok () ∧ coloring.summarize.total = 6 ∧
      coloring.localRows = [3, 1, 4, 5, 2, 8] ∧ coloring.localRows.Nodup ∧
      coloring.layout.regionOf 6 = none := by
  intro coloring
  have accepted : coloring.checkInvariants = .ok () := by decide
  obtain ⟨-, counted, distinct, -, -, -, -, past⟩ := localRows_match_layout accepted
  exact ⟨accepted, counted (by decide), by decide, distinct, (past 6).1.2 (by decide)⟩

end Coloring

end Subdomain

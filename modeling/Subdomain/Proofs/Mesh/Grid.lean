import Mathlib.Data.Nat.Dist
import Subdomain.Proofs.Mesh.CommonVertices

/-!
# Grids of quadrilaterals

Cells and vertices of a grid are numbered row by row, so the number of a place tells its column and its
row.  A cell spans two columns and two rows of vertices.  Two cells have the columns and the rows of
vertices in common that both span, and so as many vertices as the product of the two counts: one if they
meet in a corner, two if they meet in an edge.
-/

namespace Subdomain

/-! ## Places -/

section Places

variable {width height column row : Nat}

theorem place_mod (inside : column < width) : (row * width + column) % width = column := by
  rw [Nat.mul_add_mod', Nat.mod_eq_of_lt inside]

theorem place_div (inside : column < width) : (row * width + column) / width = row := by
  rw [Nat.mul_comm, Nat.mul_add_div (Nat.zero_lt_of_lt inside), Nat.div_eq_of_lt inside, Nat.add_zero]

theorem place_lt (columnInside : column < width) (rowInside : row < height) :
    row * width + column < width * height := by
  calc row * width + column
    _ < row * width + width := Nat.add_lt_add_left columnInside _
    _ = (row + 1) * width := (Nat.succ_mul row width).symm
    _ ≤ height * width := Nat.mul_le_mul_right width rowInside
    _ = width * height := Nat.mul_comm height width

/-- Places row by row are places by number: by induction on the number of rows. -/
theorem flatMap_rows {α : Type} (width height : Nat) (image : Nat → Nat → α) :
    ((List.range height).flatMap fun row => (List.range width).map fun column => image column row) =
      (List.range (width * height)).map fun number => image (number % width) (number / width) := by
  induction height with
  | zero => rfl
  | succ height ih =>
      rw [List.range_succ, List.flatMap_append, ih, List.flatMap_singleton, Nat.mul_succ,
        List.range_add, List.map_append, List.map_map]
      congr 1
      apply List.map_congr_left
      intro column inside
      rw [List.mem_range] at inside
      rw [Function.comp_apply, Nat.mul_comm width height, place_mod inside, place_div inside]

end Places

namespace VertexMesh

variable {columns rows column row thruDim : Nat} {cell other : EntityId}

/-- The vertex at a place of the grid. -/
def vertexAt (columns column row : Nat) : EntityId := .ofNat (row * (columns + 1) + column)

/-- The vertices of the cell at a place of the grid. -/
def corners (columns column row : Nat) : List EntityId :=
  [vertexAt columns column row, vertexAt columns (column + 1) row,
    vertexAt columns (column + 1) (row + 1), vertexAt columns column (row + 1)]

theorem grid_eq (columns rows : Nat) :
    grid columns rows = ofCells 2 ((List.range (columns * rows)).map fun number =>
      corners columns (number % columns) (number / columns)) :=
  congrArg (ofCells 2) (flatMap_rows columns rows (corners columns))

theorem numCells_grid (columns rows : Nat) : (grid columns rows).numCells = columns * rows := by
  rw [grid_eq, numCells, ofCells, List.length_map, List.length_range]

/-- Whether a cell has a place in the grid. -/
def InGrid (columns rows : Nat) (cell : EntityId) : Prop := cell.toNat < columns * rows

theorem verticesOf_grid (inside : InGrid columns rows cell) :
    (grid columns rows).verticesOf cell =
      corners columns (cell.toNat % columns) (cell.toNat / columns) := by
  rw [grid_eq, verticesOf, ofCells, List.getElem?_map, List.getElem?_range inside]
  rfl

theorem verticesOf_grid_outside (outside : ¬ InGrid columns rows cell) :
    (grid columns rows).verticesOf cell = [] := by
  rw [grid_eq, verticesOf, ofCells, List.getElem?_map, List.getElem?_eq_none]
  · rfl
  · rw [List.length_range]
    exact Nat.le_of_not_lt outside

theorem InGrid.column_lt (inside : InGrid columns rows cell) : cell.toNat % columns < columns := by
  apply Nat.mod_lt
  apply Nat.pos_of_ne_zero
  rintro rfl
  rw [InGrid, Nat.zero_mul] at inside
  exact Nat.not_lt_zero _ inside

theorem InGrid.row_lt (inside : InGrid columns rows cell) : cell.toNat / columns < rows :=
  Nat.div_lt_of_lt_mul inside

/-! ## Common vertices -/

/-- Whether a cell at some place of its row or column spans a vertex at some place. -/
def spans (start place : Nat) : Bool := decide (start = place ∨ start + 1 = place)

theorem spans_iff {start place : Nat} : spans start place = true ↔ start = place ∨ start + 1 = place :=
  decide_eq_true_iff

theorem le_of_spans {start place : Nat} (between : spans start place = true) : place ≤ start + 1 := by
  cases spans_iff.1 between with
  | inl first => exact first ▸ Nat.le_succ start
  | inr second => exact Nat.le_of_eq second.symm

/-- Every place of a vertex is spanned by a cell, if there are cells at all. -/
theorem exists_spans {place bound : Nat} (inside : place ≤ bound) (occupied : 0 < bound) :
    ∃ start < bound, spans start place = true := by
  cases place with
  | zero => exact ⟨0, occupied, rfl⟩
  | succ start => exact ⟨start, inside, spans_iff.2 (.inr rfl)⟩

theorem mem_corners_iff {vertex : EntityId} :
    vertex ∈ corners columns column row ↔ ∃ place other, spans column place = true ∧
      spans row other = true ∧ vertexAt columns place other = vertex := by
  simp only [corners, spans_iff, List.mem_cons, List.not_mem_nil, or_false]
  constructor
  · rintro (rfl | rfl | rfl | rfl)
    · exact ⟨column, row, .inl rfl, .inl rfl, rfl⟩
    · exact ⟨column + 1, row, .inr rfl, .inl rfl, rfl⟩
    · exact ⟨column + 1, row + 1, .inr rfl, .inr rfl, rfl⟩
    · exact ⟨column, row + 1, .inl rfl, .inr rfl, rfl⟩
  · rintro ⟨_, _, rfl | rfl, rfl | rfl, rfl⟩
    · exact .inl rfl
    · exact .inr (.inr (.inr rfl))
    · exact .inr (.inl rfl)
    · exact .inr (.inr (.inl rfl))

/-- How many of the places that one cell spans another spans as well. -/
def overlap (first second : Nat) : Nat :=
  (spans second first).toNat + (spans second (first + 1)).toNat

theorem overlap_eq (first second : Nat) : overlap first second = 2 - first.dist second := by
  change (cond (decide _) 1 0) + (cond (decide _) 1 0) = _
  rw [Bool.cond_decide, Bool.cond_decide, Nat.dist]
  split <;> split <;> omega

/-- Cells that are apart share one vertex in a corner and two in an edge, so never three. -/
theorem shared_of_apart {columnsApart rowsApart : Nat} (apart : 0 < columnsApart + rowsApart) :
    (0 < (2 - columnsApart) * (2 - rowsApart) ↔ columnsApart ≤ 1 ∧ rowsApart ≤ 1) ∧
      (1 < (2 - columnsApart) * (2 - rowsApart) ↔ columnsApart + rowsApart = 1) ∧
      (2 - columnsApart) * (2 - rowsApart) ≤ 2 := by
  obtain same | one | more : columnsApart = 0 ∨ columnsApart = 1 ∨ 2 ≤ columnsApart := by omega
  · subst same
    omega
  · subst one
    omega
  · rw [Nat.sub_eq_zero_of_le more, Nat.zero_mul]
    omega

/-- A choice of vertices by their columns and rows apart takes as many corners as the product of both. -/
theorem length_filter_corners {chosen : EntityId → Bool} {inColumns inRows : Nat → Bool}
    (each : ∀ (place : Nat) (other : Nat), column ≤ place → place ≤ column + 1 → row ≤ other →
      other ≤ row + 1 → chosen (vertexAt columns place other) = (inColumns place && inRows other)) :
    ((corners columns column row).filter chosen).length =
      ((inColumns column).toNat + (inColumns (column + 1)).toNat) *
        ((inRows row).toNat + (inRows (row + 1)).toNat) := by
  have here := Nat.le_refl column
  have next := Nat.le_succ column
  have rowHere := Nat.le_refl row
  have rowNext := Nat.le_succ row
  simp only [corners, List.filter_cons, List.filter_nil, each _ _ here next rowHere rowNext,
    each _ _ next (Nat.le_refl _) rowHere rowNext, each _ _ next (Nat.le_refl _) rowNext (Nat.le_refl _),
    each _ _ here next rowNext (Nat.le_refl _)]
  cases inColumns column <;> cases inColumns (column + 1) <;> cases inRows row <;>
    cases inRows (row + 1) <;> rfl

section

variable (fits : (columns + 1) * (rows + 1) < UInt64.size)

include fits

theorem toNat_vertexAt (columnInside : column ≤ columns) (rowInside : row ≤ rows) :
    (vertexAt columns column row).toNat = row * (columns + 1) + column :=
  UInt64.toNat_ofNat_of_lt'
    (Nat.lt_trans (place_lt (Nat.lt_succ_of_le columnInside) (Nat.lt_succ_of_le rowInside)) fits)

/-- Vertices at different places have different numbers. -/
theorem vertexAt_inj {otherColumn otherRow : Nat} (columnInside : column ≤ columns)
    (rowInside : row ≤ rows) (otherColumnInside : otherColumn ≤ columns)
    (otherRowInside : otherRow ≤ rows) :
    vertexAt columns column row = vertexAt columns otherColumn otherRow ↔
      column = otherColumn ∧ row = otherRow := by
  constructor
  · intro same
    have numbers := congrArg UInt64.toNat same
    rw [toNat_vertexAt fits columnInside rowInside,
      toNat_vertexAt fits otherColumnInside otherRowInside] at numbers
    have place := Nat.lt_succ_of_le columnInside
    have otherPlace := Nat.lt_succ_of_le otherColumnInside
    constructor
    · calc column
        _ = (row * (columns + 1) + column) % (columns + 1) := (place_mod place).symm
        _ = otherColumn := by rw [numbers, place_mod otherPlace]
    · calc row
        _ = (row * (columns + 1) + column) / (columns + 1) := (place_div place).symm
        _ = otherRow := by rw [numbers, place_div otherPlace]
  · rintro ⟨rfl, rfl⟩
    rfl

/-- A vertex is a corner of a cell that spans its column and its row. -/
theorem vertexAt_mem_corners_iff {cellColumn cellRow : Nat} (columnInside : column ≤ columns)
    (rowInside : row ≤ rows) (cellColumnInside : cellColumn < columns) (cellRowInside : cellRow < rows) :
    vertexAt columns column row ∈ corners columns cellColumn cellRow ↔
      spans cellColumn column = true ∧ spans cellRow row = true := by
  rw [mem_corners_iff]
  constructor
  · rintro ⟨otherColumn, otherRow, inColumns, inRows, same⟩
    rw [vertexAt_inj fits (Nat.le_trans (le_of_spans inColumns) cellColumnInside)
      (Nat.le_trans (le_of_spans inRows) cellRowInside) columnInside rowInside] at same
    rcases same with ⟨rfl, rfl⟩
    exact ⟨inColumns, inRows⟩
  · rintro ⟨inColumns, inRows⟩
    exact ⟨column, row, inColumns, inRows, rfl⟩

/-- Two cells have the vertices in common at the columns and rows that both span. -/
theorem length_sharedVertices_grid (inside : InGrid columns rows cell)
    (otherInside : InGrid columns rows other) :
    ((grid columns rows).sharedVertices cell other).length =
      overlap (cell.toNat % columns) (other.toNat % columns) *
        overlap (cell.toNat / columns) (other.toNat / columns) := by
  rw [sharedVertices, verticesOf_grid inside, verticesOf_grid otherInside]
  apply length_filter_corners
  intro column row _ columnInside _ rowInside
  rw [Bool.eq_iff_iff, decide_eq_true_eq, Bool.and_eq_true]
  exact vertexAt_mem_corners_iff fits (Nat.le_trans columnInside inside.column_lt)
    (Nat.le_trans rowInside inside.row_lt) otherInside.column_lt otherInside.row_lt

/-! ## Neighbors -/

theorem faithful_grid : (grid columns rows).Faithful := by
  rw [grid_eq]
  apply faithful_ofCells
  rw [List.length_map, List.length_range]
  calc columns * rows
    _ ≤ (columns + 1) * (rows + 1) := Nat.mul_le_mul (Nat.le_succ columns) (Nat.le_succ rows)
    _ ≤ UInt64.size := Nat.le_of_lt fits

theorem mem_neighbors_grid_iff :
    other ∈ (grid columns rows).adjacency.neighbors (.singleton cell) thruDim ↔
      InGrid columns rows cell ∧ InGrid columns rows other ∧ other ≠ cell ∧
        thruDim < (2 - (cell.toNat % columns).dist (other.toNat % columns)) *
          (2 - (cell.toNat / columns).dist (other.toNat / columns)) := by
  rw [mem_neighbors_singleton_iff (faithful_grid fits)]
  by_cases inside : InGrid columns rows cell
  · by_cases otherInside : InGrid columns rows other
    · rw [length_sharedVertices_grid fits inside otherInside, overlap_eq, overlap_eq]
      simp only [inside, otherInside, true_and]
    · have nothing : (grid columns rows).sharedVertices cell other = [] := by
        simp only [sharedVertices, verticesOf_grid_outside otherInside, List.not_mem_nil,
          decide_false, List.filter_false]
      simp only [nothing, otherInside, List.length_nil, Nat.not_lt_zero, and_false, false_and]
  · have nothing : (grid columns rows).sharedVertices cell other = [] := by
      rw [sharedVertices, verticesOf_grid_outside inside, List.filter_nil]
    simp only [nothing, inside, List.length_nil, Nat.not_lt_zero, and_false, false_and]

omit fits in
/-- Different cells are apart by a column or by a row. -/
theorem dist_pos_of_ne (apart : other ≠ cell) :
    0 < (cell.toNat % columns).dist (other.toNat % columns) +
      (cell.toNat / columns).dist (other.toNat / columns) := by
  apply Nat.pos_of_ne_zero
  intro nowhere
  rcases Nat.add_eq_zero_iff.1 nowhere with ⟨sameColumn, sameRow⟩
  apply apart
  rw [← UInt64.toNat_inj, ← Nat.div_add_mod' other.toNat columns, ← Nat.div_add_mod' cell.toNat columns,
    Nat.eq_of_dist_eq_zero sameColumn, Nat.eq_of_dist_eq_zero sameRow]

/-! ## Vertices -/

/-- A vertex knows the cells that span its column and its row. -/
theorem mem_cellsOf_grid_iff (columnInside : column ≤ columns) (rowInside : row ≤ rows) :
    cell ∈ (grid columns rows).cellsOf (vertexAt columns column row) ↔
      InGrid columns rows cell ∧ spans (cell.toNat % columns) column = true ∧
        spans (cell.toNat / columns) row = true := by
  rw [faithful_grid fits]
  by_cases inside : InGrid columns rows cell
  · rw [verticesOf_grid inside, and_iff_right inside]
    exact vertexAt_mem_corners_iff fits columnInside rowInside inside.column_lt inside.row_lt
  · rw [verticesOf_grid_outside inside]
    exact iff_of_false List.not_mem_nil fun known => inside known.1

omit fits in
theorem numVertices_ofCells (dim : Nat) (cells : List (List EntityId)) :
    (ofCells dim cells).numVertices = (SortedSet.ofList cells.flatten).size := by
  rw [numVertices, ← SortedMap.size_keys]
  congr 1
  ext vertex
  rw [SortedMap.mem_keys_iff, ofCells, SortedMap.get?_ofKeys]
  simp

omit fits in
/-- The vertices of a grid that has cells are the numbers of their places. -/
theorem mem_flatten_grid_iff (columnsPos : 0 < columns) (rowsPos : 0 < rows) {vertex : EntityId} :
    vertex ∈ (grid columns rows).cells.flatten ↔
      vertex ∈ (List.range ((columns + 1) * (rows + 1))).map UInt64.ofNat := by
  have ofCell : vertex ∈ (grid columns rows).cells.flatten ↔
      ∃ row < rows, ∃ column < columns, vertex ∈ corners columns column row := by
    have cells : (grid columns rows).cells = (List.range rows).flatMap fun row =>
        (List.range columns).map fun column => corners columns column row := rfl
    simp only [cells, List.mem_flatten, List.mem_flatMap, List.mem_map, List.mem_range]
    grind
  rw [ofCell, List.mem_map]
  constructor
  · rintro ⟨row, rowInside, column, columnInside, corner⟩
    rcases mem_corners_iff.1 corner with ⟨place, other, inColumns, inRows, rfl⟩
    refine ⟨_, List.mem_range.2 (place_lt ?_ ?_), rfl⟩
    · exact Nat.lt_succ_of_le (Nat.le_trans (le_of_spans inColumns) columnInside)
    · exact Nat.lt_succ_of_le (Nat.le_trans (le_of_spans inRows) rowInside)
  · rintro ⟨number, inside, rfl⟩
    rw [List.mem_range] at inside
    have column := Nat.le_of_lt_succ (Nat.mod_lt number (Nat.succ_pos columns))
    have row := Nat.le_of_lt_succ (Nat.div_lt_of_lt_mul inside)
    rcases exists_spans column columnsPos with ⟨cellColumn, cellColumnInside, inColumns⟩
    rcases exists_spans row rowsPos with ⟨cellRow, cellRowInside, inRows⟩
    refine ⟨cellRow, cellRowInside, cellColumn, cellColumnInside,
      mem_corners_iff.2 ⟨_, _, inColumns, inRows, ?_⟩⟩
    rw [vertexAt, Nat.div_add_mod']

theorem numVertices_grid (columnsPos : 0 < columns) (rowsPos : 0 < rows) :
    (grid columns rows).numVertices = (columns + 1) * (rows + 1) := by
  have numbers : ((List.range ((columns + 1) * (rows + 1))).map UInt64.ofNat).Nodup := by
    apply List.Nodup.map_on _ List.nodup_range
    intro first firstInside second secondInside same
    rw [List.mem_range] at firstInside secondInside
    have same := congrArg UInt64.toNat same
    rwa [UInt64.toNat_ofNat_of_lt' (Nat.lt_trans firstInside fits),
      UInt64.toNat_ofNat_of_lt' (Nat.lt_trans secondInside fits)] at same
  have vertices : SortedSet.ofList (grid columns rows).cells.flatten =
      .ofList ((List.range ((columns + 1) * (rows + 1))).map UInt64.ofNat) := by
    ext vertex
    rw [SortedSet.mem_ofList, SortedSet.mem_ofList, mem_flatten_grid_iff columnsPos rowsPos]
  calc (grid columns rows).numVertices
    _ = (SortedSet.ofList (grid columns rows).cells.flatten).size := numVertices_ofCells _ _
    _ = (columns + 1) * (rows + 1) := by
      rw [vertices, SortedSet.size_ofList numbers, List.length_map, List.length_range]

end

/-! ## Main result -/

/-- In a grid whose vertices words can number, two cells are neighbors through dimension 0 if their columns
and their rows are at most one apart, and through dimension 1 if they are one apart in all; through any
higher dimension there are no neighbors.  A grid with cells has a vertex at every place, and every vertex
knows the cells around it: those of the columns before and after its own, and of the rows, as far as the
grid goes. -/
theorem grid_neighbors_adjoin (fits : (columns + 1) * (rows + 1) < UInt64.size) :
    let mesh := grid columns rows
    let column (cell : EntityId) : Nat := cell.toNat % columns
    let row (cell : EntityId) : Nat := cell.toNat / columns
    let near (thruDim : Nat) (cell other : EntityId) : Prop :=
      other ∈ mesh.adjacency.neighbors (.singleton cell) thruDim
    mesh.numCells = columns * rows ∧
      (∀ cell other : EntityId, cell.toNat < columns * rows → other.toNat < columns * rows →
        cell ≠ other →
        (near 0 cell other ↔
          (column cell).dist (column other) ≤ 1 ∧ (row cell).dist (row other) ≤ 1) ∧
        (near 1 cell other ↔ (column cell).dist (column other) + (row cell).dist (row other) = 1)) ∧
      (∀ thruDim cell other, near thruDim cell other →
        cell.toNat < columns * rows ∧ other.toNat < columns * rows ∧ cell ≠ other) ∧
      (∀ thruDim, 2 ≤ thruDim → ∀ cell, mesh.adjacency.neighbors (.singleton cell) thruDim = ∅) ∧
      (0 < columns → 0 < rows → mesh.numVertices = (columns + 1) * (rows + 1)) ∧
      ∀ i ≤ columns, ∀ j ≤ rows, ∃ cells,
        mesh.adjacency.referencers 0 (.ofNat (j * (columns + 1) + i)) = .ok cells ∧
          ∀ cell, cell ∈ cells ↔ cell.toNat < columns * rows ∧
            (column cell = i ∨ column cell + 1 = i) ∧ (row cell = j ∨ row cell + 1 = j) := by
  intro mesh column row near
  have shared := fun {cell other : EntityId} (apart : other ≠ cell) =>
    shared_of_apart (@dist_pos_of_ne columns _ _ apart)
  refine ⟨numCells_grid columns rows, ?_, ?_, ?_, numVertices_grid fits, ?_⟩
  · intro cell other inside otherInside apart
    have shared := shared apart.symm
    have near_iff : ∀ thruDim, near thruDim cell other ↔
        thruDim < (2 - (column cell).dist (column other)) * (2 - (row cell).dist (row other)) := by
      intro thruDim
      refine (mem_neighbors_grid_iff fits).trans ?_
      simp only [InGrid, inside, otherInside, apart.symm, ne_eq, not_false_eq_true, true_and]
      rfl
    rw [near_iff, near_iff]
    exact ⟨shared.1, shared.2.1⟩
  · intro thruDim cell other neighbor
    rcases (mem_neighbors_grid_iff fits).1 neighbor with ⟨inside, otherInside, apart, _⟩
    exact ⟨inside, otherInside, apart.symm⟩
  · intro thruDim higher cell
    ext other
    apply iff_of_false _ (SortedSet.not_mem_empty other)
    intro neighbor
    rcases (mem_neighbors_grid_iff fits).1 neighbor with ⟨_, _, apart, more⟩
    exact absurd more (Nat.not_lt_of_le (Nat.le_trans (shared apart).2.2 higher))
  · intro i columnInside j rowInside
    refine ⟨_, rfl, ?_⟩
    intro cell
    rw [← spans_iff, ← spans_iff]
    exact mem_cellsOf_grid_iff fits columnInside rowInside

/-- A grid one cell wide, and the ends of two rows that follow one another in a grid two cells wide. -/
theorem grid_neighbors_adjoin_narrow :
    (grid 1 3).numVertices = 8 ∧ 1 ∈ (grid 1 3).adjacency.neighbors (.singleton 0) 1 ∧
      2 ∉ (grid 1 3).adjacency.neighbors (.singleton 0) 0 ∧
      2 ∈ (grid 2 2).adjacency.neighbors (.singleton 1) 0 ∧
      2 ∉ (grid 2 2).adjacency.neighbors (.singleton 1) 1 := by
  obtain ⟨-, narrow, -, -, vertices, -⟩ := @grid_neighbors_adjoin 1 3 (by decide)
  obtain ⟨-, square, -, -, -, -⟩ := @grid_neighbors_adjoin 2 2 (by decide)
  have corner := square 1 2 (by decide) (by decide) (by decide)
  refine ⟨vertices (by decide) (by decide), ?_, ?_, corner.1.2 (by decide), ?_⟩
  · exact (narrow 0 1 (by decide) (by decide) (by decide)).2.2 (by decide)
  · intro neighbor
    exact absurd ((narrow 0 2 (by decide) (by decide) (by decide)).1.1 neighbor) (by decide)
  · intro neighbor
    exact absurd (corner.2.1 neighbor) (by decide)

end VertexMesh

end Subdomain

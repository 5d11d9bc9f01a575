import Subdomain.Proofs.Sparse.Placement
import Subdomain.Sparse.Scratch

/-!
# Closing the gaps of a buffer

The marked cells are taken out of the buffer of the exclusive rows by exchanging cells: those that stay
move to a write cursor, and the marked ones that the cursor has passed gather right behind it.  This
invariant is kept by one exchange, so by a row, so by the buffer.
-/

namespace Subdomain

namespace Cell

variable {τ : Type}

theorem filled_cons_of_vacant {cell : Cell τ} (vacant : cell.isVacant = true)
    (row : List (Cell τ)) : filled (cell :: row) = filled row :=
  List.filter_cons_of_neg (by simp [vacant])

theorem filled_cons {cell : Cell τ} (content : cell.isVacant = false) (row : List (Cell τ)) :
    filled (cell :: row) = cell :: filled row :=
  List.filter_cons_of_pos (by simp [content])

end Cell

namespace Scratch

variable {τ : Type}

/-- An exchange moves a cell to the write cursor, and a marked cell from there to the end of those that
the cursor has passed. -/
theorem swapAt_cursor (kept gone rest : List (Cell τ)) (cell : Cell τ) :
    ∃ left : List (Cell τ), left.Perm gone ∧
      swapAt (kept ++ (gone ++ cell :: rest)) kept.length (kept.length + gone.length) =
        kept ++ cell :: (left ++ rest) := by
  cases gone with
  | nil => exact ⟨[], .nil, by simp [swapAt]⟩
  | cons first gone =>
      refine ⟨gone ++ [first], List.perm_append_singleton first gone, ?_⟩
      simp [swapAt, List.set_append_right]

/-- One row is packed: its cells with content follow those packed before it, and the marked cells are
all behind them. -/
theorem pack_row (kept gone row rest : List (Cell τ))
    (vacant : ∀ cell ∈ gone, cell.isVacant = true) :
    ∃ left : List (Cell τ), (∀ cell ∈ left, cell.isVacant = true) ∧
      (Cell.filled row).length + left.length = gone.length + row.length ∧
      pack (kept ++ (gone ++ (row ++ rest))) kept.length
          (List.range' (kept.length + gone.length) row.length) =
        (kept ++ (Cell.filled row ++ (left ++ rest)), kept.length + (Cell.filled row).length) := by
  induction row generalizing kept gone with
  | nil => exact ⟨gone, vacant, Nat.add_comm .., rfl⟩
  | cons cell row ih =>
      have found : (kept ++ (gone ++ (cell :: row ++ rest)))[kept.length + gone.length]? =
          some cell := by
        simp
      rw [List.length_cons, List.range'_succ, pack, found, Option.any_some]
      cases marked : cell.isVacant with
      | true =>
          have passed : ∀ other ∈ gone ++ [cell], other.isVacant = true := by
            intro other member
            rcases List.mem_append.1 member with old | new
            · exact vacant other old
            · rw [List.mem_singleton.1 new, marked]
          obtain ⟨left, leftVacant, length, packed⟩ := ih kept (gone ++ [cell]) passed
          rw [Cell.filled_cons_of_vacant marked]
          rw [List.length_append, List.length_singleton] at length packed
          refine ⟨left, leftVacant, by omega, ?_⟩
          simpa [Nat.add_assoc] using packed
      | false =>
          obtain ⟨passed, same, exchanged⟩ := swapAt_cursor kept gone (row ++ rest) cell
          have passedLength := same.length_eq
          obtain ⟨left, leftVacant, length, packed⟩ := ih (kept ++ [cell]) passed
            fun other member => vacant other (same.mem_iff.1 member)
          rw [Cell.filled_cons marked, if_neg Bool.false_ne_true, List.cons_append, exchanged,
            List.length_cons]
          rw [List.length_append, List.length_singleton, passedLength, Nat.add_right_comm] at packed
          refine ⟨left, leftVacant, by omega, ?_⟩
          simpa [Nat.add_assoc, Nat.add_comm 1] using packed

/-- The whole buffer is packed: by induction on the rows to come, with the packed cells and the marked
ones passed in front. -/
theorem foldl_packRow (kept gone : List (Cell τ)) (extents : List Extent)
    (rows : List (List (Cell τ))) (vacant : ∀ cell ∈ gone, cell.isVacant = true) :
    ∃ left : List (Cell τ),
      (Extent.consecutive (kept.length + gone.length) (rows.map List.length)).foldl packRow
          (kept ++ (gone ++ rows.flatten), extents, kept.length) =
        (kept ++ ((rows.map Cell.filled).flatten ++ left),
          extents ++ Extent.consecutive kept.length ((rows.map Cell.filled).map List.length),
          kept.length + (rows.map Cell.filled).flatten.length) := by
  induction rows generalizing kept gone extents with
  | nil => exact ⟨gone, by simp [Extent.consecutive]⟩
  | cons row rows ih =>
      obtain ⟨passed, passedVacant, length, packed⟩ := pack_row kept gone row rows.flatten vacant
      have step : packRow (kept ++ (gone ++ (row ++ rows.flatten)), extents, kept.length)
          ⟨kept.length + gone.length, row.length⟩ =
          (kept ++ (Cell.filled row ++ (passed ++ rows.flatten)),
            extents ++ [⟨kept.length, (Cell.filled row).length⟩],
            kept.length + (Cell.filled row).length) := by
        simp only [packRow, packed, Nat.add_sub_cancel_left]
      obtain ⟨left, rest⟩ := ih (kept ++ Cell.filled row) passed
        (extents ++ [⟨kept.length, (Cell.filled row).length⟩]) passedVacant
      have next : kept.length + (Cell.filled row).length + passed.length =
          kept.length + gone.length + row.length := by omega
      rw [List.length_append, next] at rest
      refine ⟨left, ?_⟩
      rw [List.map_cons, Extent.consecutive, List.foldl_cons, List.flatten_cons, step]
      simpa [Extent.consecutive, Nat.add_assoc] using rest

/-- Compacting takes the marked cells out of every row that lies in the buffer. -/
theorem compact_eq {scratch : Scratch τ} {rows : List (List (Cell τ))}
    (cells : scratch.cells = rows.flatten)
    (extents : scratch.extents = Extent.consecutive 0 (rows.map List.length)) :
    scratch.compact = {
      cells := (rows.map Cell.filled).flatten
      extents := Extent.consecutive 0 ((rows.map Cell.filled).map List.length)
      pending := scratch.pending } := by
  obtain ⟨left, packed⟩ := foldl_packRow [] [] [] rows (by simp)
  simp only [List.length_nil, List.nil_append, Nat.zero_add] at packed
  rw [compact, cells, extents, packed]
  simp

end Scratch

end Subdomain

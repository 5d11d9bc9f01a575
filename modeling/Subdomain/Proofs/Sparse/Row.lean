import Mathlib.Data.List.Perm.Subperm
import Subdomain.Sparse.Cell

/-!
# Rows as finite maps

A row is looked up by entry.  This module says what a look-up finds after each operation on rows, and
that a row without repeated entries is determined, as a map, by its cells in any order.
-/

namespace Subdomain

namespace Cell

variable {τ : Type}

/-- No entry occurs twice. -/
def Distinct (row : List (Cell τ)) : Prop :=
  row.Pairwise fun first second => first.entry ≠ second.entry

theorem Ascending.distinct {row : List (Cell τ)} (ascending : Ascending row) : Distinct row :=
  ascending.imp fun {first second} less equal => by
    rw [equal] at less
    exact UInt64.lt_irrefl _ less

theorem Ascending.tail {cell : Cell τ} {row : List (Cell τ)} (ascending : Ascending (cell :: row)) :
    Ascending row :=
  (List.pairwise_cons.1 ascending).2

theorem Ascending.above {cell : Cell τ} {row : List (Cell τ)} (ascending : Ascending (cell :: row)) :
    ∀ other ∈ row, cell.entry < other.entry :=
  (List.pairwise_cons.1 ascending).1

theorem distinct_perm {first second : List (Cell τ)} (same : first.Perm second) :
    Distinct first ↔ Distinct second :=
  same.pairwise_iff fun different equal => different equal.symm

/-! ## Look-up -/

@[simp] theorem value?_nil (entry : UInt64) : value? ([] : List (Cell τ)) entry = none := rfl

theorem value?_cons (cell : Cell τ) (row : List (Cell τ)) (entry : UInt64) :
    value? (cell :: row) entry =
      if cell.entry = entry then some cell.value else value? row entry := by
  by_cases equal : cell.entry = entry <;> simp [value?, equal]

theorem value?_append (first second : List (Cell τ)) (entry : UInt64) :
    value? (first ++ second) entry = (value? first entry).or (value? second entry) := by
  simp [value?, List.find?_append, Option.map_or]

theorem value?_eq_none_iff {row : List (Cell τ)} {entry : UInt64} :
    value? row entry = none ↔ ∀ cell ∈ row, cell.entry ≠ entry := by
  simp [value?]

theorem value?_eq_none_of_lt {row : List (Cell τ)} {entry : UInt64}
    (above : ∀ cell ∈ row, entry < cell.entry) : value? row entry = none := by
  refine value?_eq_none_iff.2 fun cell member equal => ?_
  have less := above cell member
  rw [equal] at less
  exact UInt64.lt_irrefl _ less

theorem mem_of_value? {row : List (Cell τ)} {entry : UInt64} {value : τ}
    (found : value? row entry = some value) : ⟨entry, value⟩ ∈ row := by
  obtain ⟨cell, located, equal⟩ := Option.map_eq_some_iff.1 found
  have same : cell.entry = entry := by simpa using List.find?_some located
  have member := List.mem_of_find?_eq_some located
  subst same
  subst equal
  exact member

theorem value?_eq_some_iff {row : List (Cell τ)} (distinct : Distinct row) {entry : UInt64}
    {value : τ} : value? row entry = some value ↔ ⟨entry, value⟩ ∈ row := by
  refine ⟨mem_of_value?, fun member => ?_⟩
  induction row with
  | nil => simp at member
  | cons head rest ih =>
      obtain ⟨apart, tail⟩ := List.pairwise_cons.1 distinct
      rw [value?_cons]
      cases List.mem_cons.1 member with
      | inl equal => simp [← equal]
      | inr member =>
          rw [if_neg (apart _ member)]
          exact ih tail member

/-- A look-up does not depend on the order of the cells. -/
theorem value?_perm {first second : List (Cell τ)} (same : first.Perm second)
    (distinct : Distinct first) (entry : UInt64) : value? first entry = value? second entry := by
  apply Option.ext
  intro value
  rw [value?_eq_some_iff distinct, value?_eq_some_iff ((distinct_perm same).1 distinct),
    same.mem_iff]

theorem value?_filter (keep : UInt64 → Bool) (row : List (Cell τ)) (entry : UInt64) :
    value? (row.filter fun cell => keep cell.entry) entry =
      if keep entry then value? row entry else none := by
  induction row with
  | nil => simp
  | cons head rest ih =>
      rw [List.filter_cons, value?_cons]
      by_cases equal : head.entry = entry
      · subst equal
        cases kept : keep head.entry with
        | true => simp [value?_cons]
        | false => simp [ih, kept]
      · rw [if_neg equal, ← ih]
        split
        · rw [value?_cons, if_neg equal]
        · rfl

/-! ## Sorting and placing -/

theorem ascending_of_sorted {row : List (Cell τ)}
    (sorted : row.Pairwise fun first second => first.entry ≤ second.entry)
    (distinct : Distinct row) : Ascending row :=
  sorted.imp₂ (fun _ _ least apart => UInt64.lt_of_le_of_ne least apart) distinct

theorem distinct_cons {cell : Cell τ} {row : List (Cell τ)} (distinct : Distinct row)
    (absent : value? row cell.entry = none) : Distinct (cell :: row) :=
  List.pairwise_cons.2
    ⟨fun other member => (value?_eq_none_iff.1 absent other member).symm, distinct⟩

theorem perm_place (cell : Cell τ) (row : List (Cell τ)) : (place cell row).Perm (cell :: row) :=
  perm_placeOn Cell.entry cell row

theorem perm_sort (cells : List (Cell τ)) : (sort cells).Perm cells := perm_sortOn Cell.entry cells

theorem ascending_place {cell : Cell τ} {row : List (Cell τ)} (ascending : Ascending row)
    (absent : value? row cell.entry = none) : Ascending (place cell row) := by
  apply ascending_of_sorted
  · exact pairwise_placeOn Cell.entry cell (ascending.imp UInt64.le_of_lt)
  · exact (distinct_perm (perm_place cell row)).2 (distinct_cons ascending.distinct absent)

theorem value?_place {cell : Cell τ} {row : List (Cell τ)} (ascending : Ascending row)
    (absent : value? row cell.entry = none) (entry : UInt64) :
    value? (place cell row) entry =
      if cell.entry = entry then some cell.value else value? row entry := by
  rw [← value?_cons]
  exact value?_perm (perm_place cell row) (ascending_place ascending absent).distinct entry

theorem ascending_sort {cells : List (Cell τ)} (distinct : Distinct cells) :
    Ascending (sort cells) := by
  apply ascending_of_sorted
  · exact pairwise_sortOn Cell.entry cells
  · exact (distinct_perm (perm_sort cells)).2 distinct

theorem value?_sort {cells : List (Cell τ)} (distinct : Distinct cells) (entry : UInt64) :
    value? (sort cells) entry = value? cells entry :=
  (value?_perm (perm_sort cells).symm distinct entry).symm

/-! ## Changing a value in place -/

theorem modify?_eq_none {entry : UInt64} {change : τ → τ} {row : List (Cell τ)}
    (absent : value? row entry = none) : modify? entry change row = none := by
  induction row with
  | nil => rfl
  | cons head rest ih =>
      rw [value?_cons] at absent
      rw [modify?]
      split at absent
      · cases absent
      · next apart => rw [if_neg apart, ih absent]; rfl

/-- In an ascending row the search may end where the entry belongs. -/
theorem modifyAscending?_eq {row : List (Cell τ)} (ascending : Ascending row) (entry : UInt64)
    (change : τ → τ) : modifyAscending? entry change row = modify? entry change row := by
  induction row with
  | nil => rfl
  | cons head rest ih =>
      have headLeast : ∀ cell ∈ rest, head.entry < cell.entry := (List.pairwise_cons.1 ascending).1
      have later := ih (List.pairwise_cons.1 ascending).2
      rw [modifyAscending?, modify?]
      by_cases before : head.entry < entry
      · have apart : head.entry ≠ entry := UInt64.ne_of_lt before
        rw [if_pos before, if_neg apart, later]
      · rw [if_neg before]
        by_cases here : head.entry = entry
        · rw [if_pos here, if_pos here]
        · have absent : value? rest entry = none := by
            apply value?_eq_none_iff.2
            intro cell member same
            exact before (same ▸ headLeast cell member)
          rw [if_neg here, if_neg here, modify?_eq_none absent]
          rfl

/-- Changing a value that is there changes no entry, and no other value. -/
theorem modify?_eq_some {entry : UInt64} (change : τ → τ) {row : List (Cell τ)} {value : τ}
    (found : value? row entry = some value) :
    ∃ changed, modify? entry change row = some (change value, changed) ∧
      changed.map Cell.entry = row.map Cell.entry ∧
      ∀ other, value? changed other =
        if entry = other then some (change value) else value? row other := by
  induction row with
  | nil => cases found
  | cons head rest ih =>
      rw [value?_cons] at found
      by_cases equal : head.entry = entry
      · rw [if_pos equal, Option.some.injEq] at found
        subst equal
        subst found
        refine ⟨{ head with value := change head.value } :: rest, ?_, rfl, fun other => ?_⟩
        · rw [modify?, if_pos rfl]
        · rw [value?_cons, value?_cons]
          by_cases here : head.entry = other <;> simp [here]
      · rw [if_neg equal] at found
        obtain ⟨changed, modified, entries, values⟩ := ih found
        refine ⟨head :: changed, ?_, by rw [List.map_cons, List.map_cons, entries], fun other => ?_⟩
        · rw [modify?, if_neg equal, modified]
          rfl
        · rw [value?_cons, value?_cons, values]
          by_cases here : head.entry = other
          · have apart : entry ≠ other := fun same => equal (here.trans same.symm)
            simp [here, apart]
          · simp [here]

theorem ascending_of_entries {first second : List (Cell τ)}
    (entries : first.map Cell.entry = second.map Cell.entry) (ascending : Ascending second) :
    Ascending first := by
  have keys : (second.map Cell.entry).Pairwise (· < ·) := List.pairwise_map.2 ascending
  rw [← entries] at keys
  exact List.pairwise_map.1 keys

theorem distinct_of_entries {first second : List (Cell τ)}
    (entries : first.map Cell.entry = second.map Cell.entry) (distinct : Distinct second) :
    Distinct first := by
  have keys : (second.map Cell.entry).Pairwise (· ≠ ·) := List.pairwise_map.2 distinct
  rw [← entries] at keys
  exact List.pairwise_map.1 keys

theorem value?_eq_none_of_entries {first second : List (Cell τ)} {entry : UInt64}
    (entries : first.map Cell.entry = second.map Cell.entry)
    (absent : value? second entry = none) : value? first entry = none := by
  refine value?_eq_none_iff.2 fun cell member equal => ?_
  have listed : entry ∈ second.map Cell.entry :=
    entries ▸ List.mem_map.2 ⟨cell, member, equal⟩
  obtain ⟨other, found, same⟩ := List.mem_map.1 listed
  exact value?_eq_none_iff.1 absent other found same

/-! ## Length -/

/-- A row holds no more cells than its width. -/
theorem length_le_of_distinct {row : List (Cell τ)} (distinct : Distinct row) {width : Nat}
    (below : ∀ cell ∈ row, cell.entry.toNat < width) : row.length ≤ width := by
  have nodup : (row.map fun cell => cell.entry.toNat).Nodup :=
    List.pairwise_map.2 (distinct.imp fun apart equal => apart (UInt64.toNat_inj.1 equal))
  have inside : row.map (fun cell => cell.entry.toNat) ⊆ List.range width := by
    intro number member
    obtain ⟨cell, found, equal⟩ := List.mem_map.1 member
    exact List.mem_range.2 (equal ▸ below cell found)
  simpa using (List.Nodup.subperm nodup inside).length_le

end Cell

end Subdomain

import Subdomain.Proofs.Sparse.Row
import Subdomain.Sparse.Merge

/-!
# The merged row

Merging three ascending rows gives the ascending row that holds every entry of any of them, with the
value of the spilled row first, then of the slotted, then of the committed one.
-/

namespace Subdomain

namespace Cell

variable {τ : Type}

/-! ## What a row offers next -/

theorem nextEntry_cons (cell : Cell τ) (row : List (Cell τ)) :
    nextEntry (cell :: row) = cell.entry := rfl

theorem le_vacantEntry (entry : UInt64) : entry ≤ vacantEntry := by
  rw [UInt64.le_iff_toNat_le]
  have bound := entry.toNat_lt
  have top : vacantEntry.toNat = 18446744073709551615 := rfl
  omega

theorem Ascending.nextEntry_le {row : List (Cell τ)} (ascending : Ascending row) {cell : Cell τ}
    (member : cell ∈ row) : nextEntry row ≤ cell.entry := by
  cases row with
  | nil => cases member
  | cons head rest =>
      cases List.mem_cons.1 member with
      | inl equal => exact equal ▸ UInt64.le_refl _
      | inr member => exact UInt64.le_of_lt (ascending.above cell member)

theorem Ascending.above_of_lt_nextEntry {row : List (Cell τ)} (ascending : Ascending row)
    {entry : UInt64} (less : entry < nextEntry row) : ∀ cell ∈ row, entry < cell.entry :=
  fun _ member => UInt64.lt_of_lt_of_le less (ascending.nextEntry_le member)

theorem Ascending.skip {row : List (Cell τ)} (ascending : Ascending row) (entry : UInt64) :
    Ascending (skip entry row) :=
  List.Pairwise.sublist (List.dropWhile_sublist _) ascending

theorem mem_of_mem_skip {row : List (Cell τ)} {entry : UInt64} {cell : Cell τ}
    (member : cell ∈ skip entry row) : cell ∈ row :=
  (List.dropWhile_sublist _).mem member

/-- Passing over an entry that no cell is below leaves only cells above it. -/
theorem Ascending.above_skip {row : List (Cell τ)} (ascending : Ascending row) {entry : UInt64}
    (least : entry ≤ nextEntry row) : ∀ cell ∈ Cell.skip entry row, entry < cell.entry := by
  intro cell member
  cases row with
  | nil => cases member
  | cons head rest =>
      by_cases equal : head.entry = entry
      · subst equal
        have passed : Cell.skip head.entry (head :: rest) = Cell.skip head.entry rest := by
          simp [Cell.skip]
        rw [passed] at member
        exact ascending.above cell (mem_of_mem_skip member)
      · have less : entry < head.entry := UInt64.lt_of_le_of_ne least fun same => equal same.symm
        cases List.mem_cons.1 (mem_of_mem_skip member) with
        | inl same => exact same ▸ less
        | inr member => exact UInt64.lt_trans less (ascending.above cell member)

theorem value?_skip {row : List (Cell τ)} {entry other : UInt64} (apart : entry ≠ other) :
    value? (skip entry row) other = value? row other := by
  induction row with
  | nil => rfl
  | cons head rest ih =>
      by_cases equal : head.entry = entry
      · have passed : skip entry (head :: rest) = skip entry rest := by simp [skip, equal]
        rw [passed, ih, value?_cons, if_neg fun same => apart (equal.symm.trans same)]
      · have kept : skip entry (head :: rest) = head :: rest := by simp [skip, equal]
        rw [kept]

/-! ## The steps of a merge -/

/-- What a merge of three rows gives, step by step.  A row is passed over when its next entry, if it
has one, is above the one that is taken. -/
inductive Merged : List (Cell τ) → List (Cell τ) → List (Cell τ) → List (Cell τ) → Prop where
  | spare {existing slots spare merged : List (Cell τ)} {cell : Cell τ}
      (leastSlot : cell.entry ≤ nextEntry slots) (leastExisting : cell.entry ≤ nextEntry existing)
      (rest : Merged (skip cell.entry existing) (skip cell.entry slots) spare merged) :
      Merged existing slots (cell :: spare) (cell :: merged)
  | slots {existing slots spare merged : List (Cell τ)} {cell : Cell τ}
      (passedSpare : ∀ other ∈ spare.head?, cell.entry < other.entry)
      (leastExisting : cell.entry ≤ nextEntry existing)
      (rest : Merged (skip cell.entry existing) slots spare merged) :
      Merged existing (cell :: slots) spare (cell :: merged)
  | existing {existing slots spare merged : List (Cell τ)} {cell : Cell τ}
      (passedSpare : ∀ other ∈ spare.head?, cell.entry < other.entry)
      (passedSlots : ∀ other ∈ slots.head?, cell.entry < other.entry)
      (rest : Merged existing slots spare merged) :
      Merged (cell :: existing) slots spare (cell :: merged)
  | nil : Merged [] [] [] []

/-- The row that offers nothing below the others is passed over for good reason. -/
theorem passed_of_filter_eq_none {row : List (Cell τ)} {test : Cell τ → Bool}
    (passed : row.head?.filter test = none) : ∀ cell ∈ row.head?, test cell = false := by
  intro cell head
  simpa using Option.filter_eq_none_iff.1 passed cell head

theorem merged_merge (existing slots spare : List (Cell τ)) :
    Merged existing slots spare (merge existing slots spare) := by
  fun_induction merge existing slots spare with
  | case1 existing slots spare cell chosen ih =>
      obtain ⟨head, least⟩ := Option.filter_eq_some_iff.1 chosen
      obtain ⟨rest, rfl⟩ := List.head?_eq_some_iff.1 head
      simp only [Bool.and_eq_true, decide_eq_true_eq] at least
      exact .spare least.1 least.2 ih
  | case2 existing slots spare passed cell taken ih =>
      obtain ⟨head, least⟩ := Option.filter_eq_some_iff.1 taken
      obtain ⟨rest, rfl⟩ := List.head?_eq_some_iff.1 head
      simp only [decide_eq_true_eq] at least
      refine .slots (fun other offered => ?_) least ih
      have above := passed_of_filter_eq_none passed other offered
      rw [nextEntry_cons] at above
      grind
  | case3 slots spare cell rest passedSpare passedSlots ih =>
      have slotsAbove : ∀ other ∈ slots.head?, cell.entry < other.entry := by
        intro other offered
        have above := passed_of_filter_eq_none passedSlots other offered
        rw [nextEntry_cons] at above
        grind
      refine .existing (fun other offered => ?_) slotsAbove ih
      have above := passed_of_filter_eq_none passedSpare other offered
      rw [nextEntry_cons] at above
      cases slots with
      | nil =>
          have top : nextEntry ([] : List (Cell τ)) = vacantEntry := rfl
          have least := le_vacantEntry other.entry
          grind
      | cons head tail =>
          have less := slotsAbove head rfl
          rw [nextEntry_cons] at above
          grind
  | case4 slots spare passedSpare passedSlots =>
      have top : nextEntry ([] : List (Cell τ)) = vacantEntry := rfl
      cases slots with
      | cons head tail =>
          have above := passed_of_filter_eq_none passedSlots head rfl
          have least := le_vacantEntry head.entry
          grind
      | nil =>
          cases spare with
          | cons head tail =>
              have above := passed_of_filter_eq_none passedSpare head rfl
              have least := le_vacantEntry head.entry
              grind
          | nil => exact .nil

/-! ## Merging in two steps -/

theorem filter_eq_none_of_passed {row : List (Cell τ)} {test : Cell τ → Bool} {entry : UInt64}
    (passed : ∀ other ∈ row.head?, entry < other.entry)
    (refuses : ∀ other, entry < other.entry → test other = false) : row.head?.filter test = none := by
  rw [Option.filter_eq_none_iff]
  intro cell head
  simp [refuses cell (passed cell head)]

theorem merge_spare {existing slots spare : List (Cell τ)} {cell : Cell τ}
    (leastSlot : cell.entry ≤ nextEntry slots) (leastExisting : cell.entry ≤ nextEntry existing) :
    merge existing slots (cell :: spare) =
      cell :: merge (skip cell.entry existing) (skip cell.entry slots) spare := by
  have chosen : (cell :: spare).head?.filter (fun cell : Cell τ =>
      cell.entry ≤ nextEntry slots && cell.entry ≤ nextEntry existing) = some cell := by
    simp [leastSlot, leastExisting]
  rw [merge.eq_def]
  split
  next other taken =>
    rw [chosen] at taken
    cases taken
    rfl
  next passed => cases chosen.symm.trans passed

theorem merge_slots {existing slots spare : List (Cell τ)} {cell : Cell τ}
    (passedSpare : ∀ other ∈ spare.head?, cell.entry < other.entry)
    (leastExisting : cell.entry ≤ nextEntry existing) :
    merge existing (cell :: slots) spare = cell :: merge (skip cell.entry existing) slots spare := by
  have passed : spare.head?.filter (fun other : Cell τ =>
      other.entry ≤ nextEntry (cell :: slots) && other.entry ≤ nextEntry existing) = none := by
    apply filter_eq_none_of_passed passedSpare
    intro other above
    simp [nextEntry_cons, UInt64.not_le.2 above]
  have chosen : (cell :: slots).head?.filter (fun cell : Cell τ =>
      cell.entry ≤ nextEntry existing) = some cell := by
    simp [leastExisting]
  rw [merge.eq_def]
  split
  next other taken => cases passed.symm.trans taken
  next =>
    split
    next other taken =>
      rw [chosen] at taken
      cases taken
      rfl
    next unchosen => cases chosen.symm.trans unchosen

theorem merge_existing {existing slots spare : List (Cell τ)} {cell : Cell τ}
    (passedSpare : ∀ other ∈ spare.head?, cell.entry < other.entry)
    (passedSlots : ∀ other ∈ slots.head?, cell.entry < other.entry) :
    merge (cell :: existing) slots spare = cell :: merge existing slots spare := by
  have spareAbove : spare.head?.filter (fun other : Cell τ =>
      other.entry ≤ nextEntry slots && other.entry ≤ nextEntry (cell :: existing)) = none := by
    apply filter_eq_none_of_passed passedSpare
    intro other above
    simp [nextEntry_cons, UInt64.not_le.2 above]
  have slotsAbove : slots.head?.filter (fun other : Cell τ =>
      other.entry ≤ nextEntry (cell :: existing)) = none := by
    apply filter_eq_none_of_passed passedSlots
    intro other above
    simp [nextEntry_cons, UInt64.not_le.2 above]
  rw [merge.eq_def]
  split
  next other taken => cases spareAbove.symm.trans taken
  next =>
    split
    next other taken => cases slotsAbove.symm.trans taken
    next => rfl

theorem merge_nil : merge ([] : List (Cell τ)) [] [] = [] := by
  rw [merge.eq_def]
  rfl

/-- Merging the new cells first and then the committed ones comes to the same: by induction on the
steps of the merge, each of which is a step of one of the two. -/
theorem Merged.through {existing slots spare merged : List (Cell τ)}
    (steps : Merged existing slots spare merged) :
    merge existing (merge [] slots spare) [] = merged := by
  induction steps with
  | @spare existing slots spare merged cell leastSlot leastExisting rest ih =>
      rw [merge_spare leastSlot (le_vacantEntry _), merge_slots (by simp) leastExisting]
      exact congrArg (cell :: ·) ih
  | @slots existing slots spare merged cell passedSpare leastExisting rest ih =>
      rw [merge_slots passedSpare (le_vacantEntry _), merge_slots (by simp) leastExisting]
      exact congrArg (cell :: ·) ih
  | @existing existing slots spare merged cell passedSpare passedSlots rest ih =>
      rw [merge_existing (by simp), ih]
      intro other head
      have written := merged_merge [] slots spare
      generalize merge [] slots spare = both at written head
      cases written with
      | spare => exact passedSpare other head
      | slots => exact passedSlots other head
      | nil => cases head
  | nil => rw [merge_nil, merge_nil]

/-! ## Cells, order and look-up -/

theorem Merged.mem {existing slots spare merged : List (Cell τ)}
    (steps : Merged existing slots spare merged) {cell : Cell τ} (member : cell ∈ merged) :
    cell ∈ existing ∨ cell ∈ slots ∨ cell ∈ spare := by
  induction steps with
  | spare _ _ _ ih =>
      cases List.mem_cons.1 member with
      | inl equal => simp [equal]
      | inr member =>
          rcases ih member with found | found | found
          · exact .inl (mem_of_mem_skip found)
          · exact .inr (.inl (mem_of_mem_skip found))
          · simp [found]
  | slots _ _ _ ih =>
      cases List.mem_cons.1 member with
      | inl equal => simp [equal]
      | inr member =>
          rcases ih member with found | found | found
          · exact .inl (mem_of_mem_skip found)
          · simp [found]
          · simp [found]
  | existing _ _ _ ih =>
      cases List.mem_cons.1 member with
      | inl equal => simp [equal]
      | inr member =>
          rcases ih member with found | found | found <;> simp [found]
  | nil => cases member

theorem Ascending.above_of_head {row : List (Cell τ)} (ascending : Ascending row) {entry : UInt64}
    (passed : ∀ other ∈ row.head?, entry < other.entry) : ∀ cell ∈ row, entry < cell.entry := by
  cases row with
  | nil => simp
  | cons head rest => exact ascending.above_of_lt_nextEntry (passed head rfl)

theorem Merged.ascending {existing slots spare merged : List (Cell τ)}
    (steps : Merged existing slots spare merged) (existingAscends : Ascending existing)
    (slotsAscend : Ascending slots) (spareAscends : Ascending spare) : Ascending merged := by
  induction steps with
  | spare leastSlot leastExisting rest ih =>
      refine List.pairwise_cons.2 ⟨fun other member => ?_,
        ih (existingAscends.skip _) (slotsAscend.skip _) spareAscends.tail⟩
      rcases rest.mem member with found | found | found
      · exact existingAscends.above_skip leastExisting other found
      · exact slotsAscend.above_skip leastSlot other found
      · exact spareAscends.above other found
  | slots passedSpare leastExisting rest ih =>
      refine List.pairwise_cons.2 ⟨fun other member => ?_,
        ih (existingAscends.skip _) slotsAscend.tail spareAscends⟩
      rcases rest.mem member with found | found | found
      · exact existingAscends.above_skip leastExisting other found
      · exact slotsAscend.above other found
      · exact spareAscends.above_of_head passedSpare other found
  | existing passedSpare passedSlots rest ih =>
      refine List.pairwise_cons.2 ⟨fun other member => ?_,
        ih existingAscends.tail slotsAscend spareAscends⟩
      rcases rest.mem member with found | found | found
      · exact existingAscends.above other found
      · exact slotsAscend.above_of_head passedSlots other found
      · exact spareAscends.above_of_head passedSpare other found
  | nil => exact .nil

theorem Merged.value? {existing slots spare merged : List (Cell τ)}
    (steps : Merged existing slots spare merged) (slotsAscend : Ascending slots)
    (spareAscends : Ascending spare) (entry : UInt64) :
    value? merged entry =
      (value? spare entry).or ((value? slots entry).or (value? existing entry)) := by
  induction steps with
  | spare _ _ _ ih =>
      rw [value?_cons, value?_cons, ih (slotsAscend.skip _) spareAscends.tail]
      split
      · rfl
      · next apart => rw [value?_skip apart, value?_skip apart]
  | slots passedSpare _ _ ih =>
      rw [value?_cons, value?_cons, ih slotsAscend.tail spareAscends]
      split
      · next equal =>
          subst equal
          rw [value?_eq_none_of_lt (spareAscends.above_of_head passedSpare)]
          rfl
      · next apart => rw [value?_skip apart]
  | existing passedSpare passedSlots _ ih =>
      rw [value?_cons, value?_cons, ih slotsAscend spareAscends]
      split
      · next equal =>
          subst equal
          rw [value?_eq_none_of_lt (spareAscends.above_of_head passedSpare),
            value?_eq_none_of_lt (slotsAscend.above_of_head passedSlots)]
          rfl
      · rfl
  | nil => rfl

end Cell

end Subdomain

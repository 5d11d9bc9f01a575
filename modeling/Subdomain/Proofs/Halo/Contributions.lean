import Subdomain.Proofs.Halo.Gather
import Subdomain.Proofs.Halo.SummaryWords
import Subdomain.Proofs.Message.Failure
import Subdomain.Proofs.Outcome

/-!
# Gathered values agree

Every rank that takes part in a gathering ends with the value that all others end with, in which each rank
finds exactly what every rank gave.  Overlaps differ from rank to rank, but what one rank learns of
another is what the other learns of it.
-/

namespace Subdomain

namespace Gather

open Exchange Subdomain.Group

variable {α : Type} {size : Rank} {tag : Tag}

/-- Memory holds the words that each rank gives. -/
def Held (size : Rank) (words : Seat → List UInt64) : Prop :=
  ∀ seat : Seat, seat.size = size → (words seat).length * 8 ≤ maxAllocationBytes

theorem Held.fits {words : Seat → List UInt64} (held : Held size words) (seat : Seat)
    (inGroup : seat.size = size) : fits (words seat) = true :=
  fits_of_length_le (Nat.le_refl _) (by decide) (held seat inGroup) (by decide)

/-! ## What the ranks end with -/

/-- A map from the ranks of a group to what each of them gave. -/
structure Contributions (size : Rank) (given : Seat → α) (all : SortedMap Rank α) : Prop where
  entry : ∀ seat : Seat, seat.size = size → all.get? seat.rank = some (given seat)
  outside : ∀ rank, size ≤ rank → all.get? rank = none

/-- Maps, one for each rank of a group, from the other ranks with a set that overlaps its own to the
overlap. -/
structure Overlaps (size : Rank) (sets : Seat → IdSet) (maps : Seat → SortedMap Rank IdSet) :
    Prop where
  entry : ∀ seat : Seat, seat.size = size → ∀ rank common,
    (maps seat).get? rank = some common ↔
      ∃ other : Seat, other.size = size ∧ other.rank = rank ∧ other ≠ seat ∧
        (∃ id, id ∈ sets other ∧ id ∈ sets seat) ∧
        ∀ id, id ∈ common ↔ id ∈ sets other ∧ id ∈ sets seat
  symmetric : ∀ first second : Seat, first.size = size → second.size = size →
    (maps first).get? second.rank = (maps second).get? first.rank

/-- What the ranks gave, by rank. -/
def byRank (size : Rank) (given : Seat → α) : SortedMap Rank α :=
  .ofList ((Seat.all size).map fun giver => (giver.rank, given giver))

theorem get?_byRank {given : Seat → α} {rank : Rank} {value : α} :
    (byRank size given).get? rank = some value ↔
      ∃ seat : Seat, seat.size = size ∧ seat.rank = rank ∧ given seat = value := by
  have distinct : (((Seat.all size).map fun giver => (giver.rank, given giver)).map Prod.fst).Nodup := by
    rw [List.map_map]
    exact Seat.map_rank_all size ▸ Seat.nodup_ranksBelow size
  rw [byRank, SortedMap.get?_ofList_eq_some_iff distinct, List.mem_map]
  simp only [Seat.mem_all, Prod.mk.injEq]

theorem contributions_byRank (size : Rank) (given : Seat → α) :
    Contributions size given (byRank size given) where
  entry := fun seat inGroup => get?_byRank.2 ⟨seat, inGroup, rfl, rfl⟩
  outside := fun rank outside => by
    apply Option.eq_none_iff_forall_ne_some.2
    intro value found
    have ⟨seat, inGroup, sameRank, _⟩ := get?_byRank.1 found
    have inside : seat.rank < size := inGroup ▸ seat.rank_lt
    exact UInt64.not_lt.2 outside (sameRank ▸ inside)

theorem exists_common_iff {first second : IdSet} :
    (first ∩ second).isEmpty = false ↔ ∃ id, id ∈ first ∧ id ∈ second := by
  rw [← Bool.not_eq_true, SortedSet.isEmpty_iff]
  simp

theorem overlaps_overlapsOf (size : Rank) (sets : Seat → IdSet) :
    Overlaps size sets (overlapsOf size sets) where
  entry := fun seat _ rank common => by
    rw [get?_overlapsOf]
    apply exists_congr
    intro other
    have same : sets other ∩ sets seat = common ↔
        ∀ id, id ∈ common ↔ id ∈ sets other ∧ id ∈ sets seat := by
      simp only [← SortedSet.mem_inter, eq_comm, SortedSet.ext_iff]
    rw [exists_common_iff, same]
  symmetric := fun first second firstInside secondInside => by
    apply Option.ext
    intro common
    rw [get?_overlapsOf, get?_overlapsOf]
    constructor
    · intro ⟨other, inGroup, sameRank, apart, overlap, same⟩
      have isSecond : other = second := Seat.eq_of_rank (inGroup.trans secondInside.symm) sameRank
      subst isSecond
      rw [SortedSet.inter_comm] at overlap same
      exact ⟨first, firstInside, rfl, apart.symm, overlap, same⟩
    · intro ⟨other, inGroup, sameRank, apart, overlap, same⟩
      have isFirst : other = first := Seat.eq_of_rank (inGroup.trans firstInside.symm) sameRank
      subst isFirst
      rw [SortedSet.inter_comm] at overlap same
      exact ⟨second, secondInside, rfl, apart.symm, overlap, same⟩

/-! ## How a gathering ends -/

theorem settles_idSets {sets : Seat → IdSet} (held : Held size fun seat => (sets seat).toList) :
    Settles size (fun seat => (idSets seat (sets seat) tag).run)
      (fun _ => .ok (byRank size sets)) := by
  apply (settles_allGather held.fits).andThen
  apply (settles_done _).congr fun _ _ => rfl
  intro seat inGroup
  rw [Seat.zip_ranks inGroup fun giver => (sets giver).toList, List.map_map, byRank]
  simp only [Function.comp_def, SortedSet.ofList_toList]

theorem settles_sizes (numbers : Seat → UInt64) :
    Settles size (fun seat => (sizes seat (numbers seat) tag).run)
      (fun _ => .ok ((Seat.all size).map numbers)) := by
  have held : Held size fun seat => [numbers seat] := by
    intro seat _
    rw [List.length_singleton]
    decide
  apply (settles_allGather held.fits).andThen
  apply (settles_done _).congr fun _ _ => rfl
  intro seat inGroup
  rw [Seat.zip_ranks inGroup fun giver => [numbers giver], List.mapM_map]
  exact (mapM_eq_ok_map fun _ _ => rfl).symm

theorem settles_summaries {given : Seat → Summary} (held : Held size fun seat => (given seat).encode) :
    Settles size (fun seat => (summaries seat (given seat) tag).run)
      (fun _ => .ok (byRank size given)) := by
  have short : ∀ giver ∈ Seat.all size, (given giver).encode.length ≤ maxWord :=
    fun giver member => length_le_of_fits (held.fits giver (Seat.mem_all.1 member))
  apply (settles_allGather held.fits).andThen
  apply Settles.andThen
  · apply (settles_done fun _ => .ok ((Seat.all size).map fun giver => (giver.rank, given giver))).congr
    · intro seat inGroup
      rw [Seat.zip_ranks inGroup fun giver => (given giver).encode, List.mapM_map]
      apply congrArg Program.done
      apply mapM_eq_ok_map
      intro giver member
      simp only [Function.comp, Summary.decode?_encode (short giver member)]
      rfl
    · intro seat inGroup
      rfl
  · exact settles_done _

/-- A gathering ends on every rank, under every schedule, with the same value, in which each rank finds what
every rank gave: an id set, a number or a summary.  A gathering of overlaps ends on every rank with the
ranks that share an id with it, and the same overlap stands on both sides. -/
theorem gatherings_agree (size : Rank) (tag : Tag) :
    (∀ sets : Seat → IdSet, Held size (fun seat => (sets seat).toList) →
      (∃ all, Ensures size (fun seat => idSets seat (sets seat) tag) (fun _ outcome => outcome = .ok all) ∧
        Contributions size sets all) ∧
      ∃ maps : Seat → SortedMap Rank IdSet,
        Ensures size (fun seat => overlaps seat (sets seat) tag)
          (fun seat outcome => outcome = .ok (maps seat)) ∧ Overlaps size sets maps) ∧
    (∀ numbers : Seat → UInt64,
      ∃ all, Ensures size (fun seat => sizes seat (numbers seat) tag)
          (fun _ outcome => outcome = .ok all) ∧
        all.length = size.toNat ∧
        ∀ seat : Seat, seat.size = size → all[seat.rank.toNat]? = some (numbers seat)) ∧
    ∀ given : Seat → Summary, Held size (fun seat => (given seat).encode) →
      ∃ all, Ensures size (fun seat => summaries seat (given seat) tag)
          (fun _ outcome => outcome = .ok all) ∧ Contributions size given all := by
  refine ⟨fun sets held => ⟨?_, ?_⟩, fun numbers => ?_, fun given held => ?_⟩
  · exact ⟨byRank size sets, (settles_idSets held).ensures fun _ _ => rfl,
      contributions_byRank size sets⟩
  · exact ⟨overlapsOf size sets, (settles_overlaps held.fits).ensures fun _ _ => rfl,
      overlaps_overlapsOf size sets⟩
  · refine ⟨(Seat.all size).map numbers, (settles_sizes numbers).ensures fun _ _ => rfl, ?_, ?_⟩
    · rw [List.length_map, Seat.length_all]
    · intro seat inGroup
      rw [List.getElem?_map, Seat.getElem?_all inGroup, Option.map_some]
  · exact ⟨byRank size given, (settles_summaries held).ensures fun _ _ => rfl,
      contributions_byRank size given⟩

/-- The sets of the first two of three ranks share an id, and the third has none. -/
def sharedId (seat : Seat) : IdSet :=
  if seat.rank = 0 then .ofList [1, 2] else if seat.rank = 1 then .ofList [2, 3] else ∅

/-- Each of three ranks names the next as a user, a rank that the last does not have. -/
def nextUser (seat : Seat) : Summary :=
  { exclusive := 7, sharedUsers := .ofList [seat.rank + 1] }

theorem gatherings_agree_sharedId :
    let first : Seat := ⟨0, 3, by decide⟩
    let second : Seat := ⟨1, 3, by decide⟩
    let third : Seat := ⟨2, 3, by decide⟩
    Held 3 (fun seat => (sharedId seat).toList) ∧ Held 3 (fun seat => (nextUser seat).encode) ∧
      (∃ all, Ensures 3 (fun seat => idSets seat (sharedId seat) 9)
          (fun _ outcome => outcome = .ok all) ∧
        all.get? 0 = some (.ofList [1, 2]) ∧ all.get? 2 = some ∅ ∧ all.get? 3 = none) ∧
      (∃ maps : Seat → SortedMap Rank IdSet,
        Ensures 3 (fun seat => overlaps seat (sharedId seat) 9)
          (fun seat outcome => outcome = .ok (maps seat)) ∧
        maps first = .ofList [(1, .ofList [2])] ∧ maps second = .ofList [(0, .ofList [2])] ∧
        maps third = ∅) ∧
      ∃ all, Ensures 3 (fun seat => summaries seat (nextUser seat) 9)
          (fun _ outcome => outcome = .ok all) ∧
        all.get? 2 = some { exclusive := 7, sharedUsers := .ofList [3] } := by
  intro first second third
  have setsHeld : Held 3 fun seat => (sharedId seat).toList := by
    have listed : ∀ seat ∈ Seat.all 3, (sharedId seat).toList.length * 8 ≤ maxAllocationBytes := by
      decide +kernel
    intro seat inGroup
    exact listed seat (Seat.mem_all.2 inGroup)
  have summariesHeld : Held 3 fun seat => (nextUser seat).encode := by
    have listed : ∀ seat ∈ Seat.all 3, (nextUser seat).encode.length * 8 ≤ maxAllocationBytes := by
      decide +kernel
    intro seat inGroup
    exact listed seat (Seat.mem_all.2 inGroup)
  have ⟨agreeOnSets, _, agreeOnSummaries⟩ := gatherings_agree 3 9
  have ⟨⟨sets, setsEnd, given⟩, maps, mapsEnd, _⟩ := agreeOnSets sharedId setsHeld
  have ⟨recorded, recordedEnd, described⟩ := agreeOnSummaries nextUser summariesHeld
  let call (seat : Seat) := (overlaps seat (sharedId seat) 9).run
  have ends := (mapsEnd (runFor 60 (ofCall 3 call)) (reaches_runFor 60 _)).2.2
  refine ⟨setsHeld, summariesHeld, ⟨sets, setsEnd, given.entry first rfl, given.entry third rfl,
    given.outside 3 (by decide)⟩, ⟨maps, mapsEnd, ?_, ?_, ?_⟩, recorded, recordedEnd,
    described.entry third rfl⟩
  · apply Except.ok.inj (ends first rfl _ ?_).symm
    apply getElem?_values_eq_some_iff.1
    decide +kernel
  · apply Except.ok.inj (ends second rfl _ ?_).symm
    apply getElem?_values_eq_some_iff.1
    decide +kernel
  · apply Except.ok.inj (ends third rfl _ ?_).symm
    apply getElem?_values_eq_some_iff.1
    decide +kernel

end Gather

end Subdomain

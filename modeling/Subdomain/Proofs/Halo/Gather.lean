import Subdomain.Halo.Gather
import Subdomain.Proofs.Message.Exchange
import Subdomain.Proofs.Ordered

/-!
# Gathering is exact

When all ranks give each other the same records, everyone ends up with everyone's.
-/

namespace Subdomain

namespace Seat

variable {α : Type} {size : Rank} {seat other : Seat}

theorem rank_inj (sameSize : seat.size = other.size) : seat.rank = other.rank ↔ seat = other := by
  constructor
  · exact eq_of_rank sameSize
  · exact congrArg rank

theorem nodup_all (size : Rank) : (all size).Nodup := by
  apply List.Nodup.of_map rank
  rw [map_rank_all]
  exact nodup_ranksBelow size

/-- What the ranks gave, next to the ranks that gave it. -/
theorem zip_ranks (inGroup : seat.size = size) (values : Seat → α) :
    seat.ranks.zip ((all size).map values) =
      (all size).map fun giver => (giver.rank, values giver) := by
  rw [ranks, inGroup, ← map_rank_all, List.zip_map']

theorem map_ranks (inGroup : seat.size = size) (values : Rank → α) :
    seat.ranks.map values = (all size).map fun other => values other.rank := by
  rw [ranks, inGroup, ← map_rank_all, List.map_map]
  rfl

end Seat

open Exchange Subdomain.Group

variable {ρ : Type} [Record ρ] {β : Type} {patience : Patience} {size : Rank} {tag : Tag}
  {values : Seat → β}

omit [Record ρ] in
theorem Exchange.bufferFor_map_all {seat : Seat} (inGroup : seat.size = size)
    (buffers : Seat → List ρ) : bufferFor ((Seat.all size).map buffers) seat.rank = buffers seat := by
  rw [bufferFor, List.getElem?_map, Seat.getElem?_all inGroup]
  rfl

omit [Record ρ] in
/-- Buffers that are given by sender and receiver arrive as they were given. -/
theorem Exchange.received_map_all {seat : Seat} (inGroup : seat.size = size)
    (buffers : Seat → Seat → List ρ) :
    received size (fun sender => (Seat.all size).map (buffers sender)) seat =
      (Seat.all size).map fun sender => buffers sender seat := by
  unfold received
  congr 1
  funext sender
  exact bufferFor_map_all inGroup (buffers sender)

theorem Exchange.ready_map_all {buffers : Seat → List ρ} :
    Ready size ((Seat.all size).map buffers) ↔
      ∀ seat : Seat, seat.size = size → fits (buffers seat) = true := by
  simp [Ready, Seat.mem_all]

theorem Exchange.ready_replicate {seat : Seat} (inGroup : seat.size = size) {records : List ρ} :
    Ready size (List.replicate seat.size.toNat records) ↔ fits records = true := by
  have occupied : seat.size.toNat ≠ 0 := Nat.ne_of_gt (Nat.zero_lt_of_lt seat.toNat_lt)
  simp [Ready, inGroup]
  simp [← inGroup, occupied]

omit [Record ρ] in
/-- What every rank gives all others, every rank gets. -/
theorem Exchange.received_replicate {seat : Seat} (inGroup : seat.size = size)
    (records : Seat → List ρ) :
    received size (fun seat => List.replicate seat.size.toNat (records seat)) seat =
      (Seat.all size).map records := by
  apply List.map_congr_left
  intro sender member
  rw [bufferFor, List.getElem?_replicate, Seat.mem_all.1 member, if_pos (inGroup ▸ seat.toNat_lt)]
  rfl

theorem settles_allGather {records : Seat → List ρ}
    (fitting : ∀ seat : Seat, seat.size = size → fits (records seat) = true) :
    Settles size (fun seat => (allGather seat (records seat) tag).run)
      (fun _ => .ok ((Seat.all size).map records)) := by
  have ready : ∀ seat : Seat, seat.size = size →
      Ready size (List.replicate seat.size.toNat (records seat)) :=
    fun seat inGroup => (ready_replicate inGroup).2 (fitting seat inGroup)
  apply (settles_allToAll ready).congr fun _ _ => rfl
  intro seat inGroup
  rw [received_replicate inGroup]

/-- A gathering comes to an end on every rank exactly when memory holds what each of them gives. -/
theorem completes_allGather_iff {records : Seat → List ρ}
    {next : Seat → List (List ρ) → Collective β} :
    Completes patience size (fun seat => allGather seat (records seat) tag >>= next seat) values ↔
      (∀ seat : Seat, seat.size = size → fits (records seat) = true) ∧
        Completes patience size (fun seat => next seat ((Seat.all size).map records)) values := by
  simp only [allGather]
  rw [completes_allToAll_iff, forall₂_congr fun seat inGroup => ready_replicate inGroup]
  apply and_congr_right
  intro _
  apply completes_congr
  intro seat inGroup
  rw [received_replicate inGroup]

namespace Gather

/-- For every other rank whose set overlaps a rank's own, the overlap. -/
def overlapsOf (size : Rank) (sets : Seat → IdSet) (seat : Seat) : SortedMap Rank IdSet :=
  .ofList (((Seat.all size).filter fun other =>
    decide (other ≠ seat) && !(sets other ∩ sets seat).isEmpty).map fun other =>
      (other.rank, sets other ∩ sets seat))

theorem get?_overlapsOf {sets : Seat → IdSet} {seat : Seat} {rank : Rank} {common : IdSet} :
    (overlapsOf size sets seat).get? rank = some common ↔
      ∃ other : Seat, other.size = size ∧ other.rank = rank ∧ other ≠ seat ∧
        (sets other ∩ sets seat).isEmpty = false ∧ sets other ∩ sets seat = common := by
  have distinct : ((((Seat.all size).filter fun other =>
      decide (other ≠ seat) && !(sets other ∩ sets seat).isEmpty).map fun other =>
        (other.rank, sets other ∩ sets seat)).map Prod.fst).Nodup := by
    rw [List.map_map]
    apply List.Nodup.map_on
    · intro first firstInside second secondInside same
      rw [List.mem_filter, Seat.mem_all] at firstInside secondInside
      exact Seat.eq_of_rank (firstInside.1.trans secondInside.1.symm) same
    · exact (Seat.nodup_all size).filter _
  rw [overlapsOf, SortedMap.get?_ofList_eq_some_iff distinct]
  simp only [List.mem_map, List.mem_filter, Seat.mem_all, Bool.and_eq_true, decide_eq_true_eq,
    Bool.not_eq_true', Prod.mk.injEq]
  constructor
  · rintro ⟨other, ⟨inGroup, apart, overlap⟩, rank, same⟩
    exact ⟨other, inGroup, rank, apart, overlap, same⟩
  · rintro ⟨other, inGroup, rank, apart, overlap, same⟩
    exact ⟨other, ⟨inGroup, apart, overlap⟩, rank, same⟩

/-- What a rank makes of everybody's sets. -/
theorem ofList_overlaps {seat : Seat} (inGroup : seat.size = size) (sets : Seat → IdSet) :
    SortedMap.ofList ((seat.ranks.zip ((Seat.all size).map fun other => (sets other).toList)).filterMap
      fun heard =>
        let common := SortedSet.ofList heard.2 ∩ sets seat
        if heard.1 = seat.rank ∨ common.isEmpty then none else some (heard.1, common)) =
      overlapsOf size sets seat := by
  rw [Seat.zip_ranks inGroup fun other => (sets other).toList, List.filterMap_map, overlapsOf,
    ← List.filterMap_eq_map, List.filterMap_filter]
  congr 1
  apply List.filterMap_congr
  intro other member
  simp only [Function.comp, SortedSet.ofList_toList,
    Seat.rank_inj ((Seat.mem_all.1 member).trans inGroup.symm)]
  by_cases same : other = seat
  · simp [same]
  · cases empty : (sets other ∩ sets seat).isEmpty <;> simp [same]

theorem settles_overlaps {sets : Seat → IdSet}
    (fitting : ∀ seat : Seat, seat.size = size → fits (sets seat).toList = true) :
    Settles size (fun seat => (overlaps seat (sets seat) tag).run)
      (fun seat => .ok (overlapsOf size sets seat)) := by
  apply (settles_allGather fitting).andThen
  apply (settles_done _).congr fun _ _ => rfl
  intro seat inGroup
  rw [← ofList_overlaps inGroup]

theorem completes_overlaps_iff {sets : Seat → IdSet}
    {next : Seat → SortedMap Rank IdSet → Collective β} :
    Completes patience size (fun seat => overlaps seat (sets seat) tag >>= next seat) values ↔
      (∀ seat : Seat, seat.size = size → fits (sets seat).toList = true) ∧
        Completes patience size (fun seat => next seat (overlapsOf size sets seat)) values := by
  simp only [overlaps, bind_assoc, pure_bind]
  rw [completes_allGather_iff]
  apply and_congr_right
  intro _
  apply completes_congr
  intro seat inGroup
  rw [← ofList_overlaps inGroup]

end Gather

end Subdomain

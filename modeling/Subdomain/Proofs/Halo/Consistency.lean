import Subdomain.Proofs.Halo.Ownership

/-!
# Consistent colorings

Whatever the ranks copy from each other, there is one way to fill all their colorings: every owner
numbers its entities and lists who copies each, and every copy has the owner's number.  Colorings that
are filled so agree with each other, and each passes its own check.
-/

namespace Subdomain

open Ownership

variable {size : Rank} {primary : Seat → IdSet} {copies : Seat → Seat → IdSet} {seat owner : Seat}
  {id : EntityId}

/-- What ranks may copy from each other: an entity from its owner, if they do not own it as well, and
from nobody else. -/
structure LawfulCopies (size : Rank) (primary : Seat → IdSet) (copies : Seat → Seat → IdSet) :
    Prop where
  owned : ∀ user owner : Seat, user.size = size → owner.size = size →
    ∀ id ∈ copies user owner, id ∈ primary owner
  foreign : ∀ user owner : Seat, user.size = size → owner.size = size →
    ∀ id ∈ copies user owner, id ∉ primary user
  once : ∀ user owner other : Seat, user.size = size → owner.size = size → other.size = size →
    ∀ id ∈ copies user owner, id ∈ copies user other → owner = other

/-- What one rank may copy: nothing from itself, nothing that it owns as well, and nothing from two
owners. -/
structure LawfulFor (size : Rank) (primary : Seat → IdSet) (copies : Seat → Seat → IdSet)
    (user : Seat) : Prop where
  apart : ∀ owner : Seat, owner.size = size → ∀ id ∈ copies user owner, owner.rank ≠ user.rank
  foreign : ∀ owner : Seat, owner.size = size → ∀ id ∈ copies user owner, id ∉ primary user
  once : ∀ owner other : Seat, owner.size = size → other.size = size →
    ∀ id ∈ copies user owner, id ∈ copies user other → owner = other

/-- The colorings of a group and their summaries agree with each other. -/
structure Consistent (size : Rank) (colorings : Seat → Coloring) (summaries : Seat → Summary) :
    Prop where
  /-- What a rank owns is what it has owned records of. -/
  primary : ∀ owner : Seat, owner.size = size → ∀ id, id ∈ (colorings owner).primary ↔
    ∃ original ∈ (colorings owner).ownedRecords, original.id = id
  /-- Every copy is owned by another rank, which has it under the same number, the count of smaller
  ids that it owns, and lists the copy. -/
  ghosts : ∀ user : Seat, user.size = size → ∀ ghost ∈ (colorings user).ghost,
    ghost.owner ≠ user.rank ∧ ∃ owner : Seat, owner.size = size ∧ owner.rank = ghost.owner ∧
      ghost.offset.toNat = (colorings owner).primary.countBelow ghost.id ∧
      ∃ original ∈ (colorings owner).ownedRecords,
        original.id = ghost.id ∧ original.offset = ghost.offset ∧ user.rank ∈ original.sharers
  /-- An owner lists exactly the ranks that copy an entity from it. -/
  sharers : ∀ owner : Seat, owner.size = size → ∀ original ∈ (colorings owner).ownedRecords,
    ∀ rank, rank ∈ original.sharers ↔ ∃ user : Seat, user.size = size ∧ user.rank = rank ∧
      ∃ ghost ∈ (colorings user).ghost, ghost.id = original.id ∧ ghost.owner = owner.rank
  /-- What nobody copies is exclusive. -/
  exclusive : ∀ owner : Seat, owner.size = size → ∀ original ∈ (colorings owner).ownedRecords,
    original ∈ (colorings owner).exclusive ↔ ∀ user : Seat, user.size = size →
      ∀ ghost ∈ (colorings user).ghost, ghost.id = original.id → ghost.owner ≠ owner.rank
  /-- Two summaries name each other's ranks or neither does. -/
  summaries : ∀ owner user : Seat, owner.size = size → user.size = size →
    (user.rank ∈ (summaries owner).sharedUsers ↔ owner.rank ∈ (summaries user).ghostOwners)

/-- Nobody copies from itself. -/
theorem LawfulCopies.apart (lawful : LawfulCopies size primary copies) {user owner : Seat}
    (userInGroup : user.size = size) (ownerInGroup : owner.size = size)
    (copied : id ∈ copies user owner) : owner.rank ≠ user.rank := by
  intro same
  have twin := Seat.eq_of_rank (ownerInGroup.trans userInGroup.symm) same
  apply lawful.foreign user owner userInGroup ownerInGroup id copied
  rw [← twin]
  exact lawful.owned user owner userInGroup ownerInGroup id copied

theorem LawfulCopies.lawfulFor (lawful : LawfulCopies size primary copies)
    (inGroup : seat.size = size) : LawfulFor size primary copies seat where
  apart _ ownerInGroup _ copied := lawful.apart inGroup ownerInGroup copied
  foreign owner ownerInGroup := lawful.foreign seat owner inGroup ownerInGroup
  once owner other ownerInGroup otherInGroup := lawful.once seat owner other inGroup ownerInGroup otherInGroup

namespace Coloring

/-- The record that the owner has of an entity. -/
def originalAt (size : Rank) (primary : Seat → IdSet) (copies : Seat → Seat → IdSet) (owner : Seat)
    (id : EntityId) : EntityRecord :=
  ⟨id, owner.rank, .ofNat ((primary owner).countBelow id), sharersOf size copies owner id⟩

/-- The coloring of a rank, by what every rank owns and copies. -/
def assemble (size : Rank) (primary : Seat → IdSet) (copies : Seat → Seat → IdSet) (seat : Seat) :
    Coloring :=
  ofRecords ((primary seat).toList.map (originalAt size primary copies seat))
    (ghostsOf size primary copies seat)

@[simp] theorem primary_assemble : (assemble size primary copies seat).primary = primary seat := by
  rw [assemble, ofRecords, List.map_map]
  have ids : EntityRecord.id ∘ originalAt size primary copies seat = fun id => id := rfl
  rw [ids, List.map_id', SortedSet.ofList_toList]

theorem mem_ghost_assemble {ghost : EntityRecord} :
    ghost ∈ (assemble size primary copies seat).ghost ↔
      ∃ owner : Seat, owner.size = size ∧ ∃ id ∈ copies seat owner,
        recordAt primary owner id = ghost := mem_ghostsOf

theorem mem_exclusive_assemble {record : EntityRecord} :
    record ∈ (assemble size primary copies seat).exclusive ↔
      (∃ id ∈ primary seat, originalAt size primary copies seat id = record) ∧
        record.sharers.isEmpty = true := by
  simp [assemble, ofRecords, SortedSet.mem_toList]

theorem mem_shared_assemble {record : EntityRecord} :
    record ∈ (assemble size primary copies seat).shared ↔
      (∃ id ∈ primary seat, originalAt size primary copies seat id = record) ∧
        record.sharers.isEmpty = false := by
  simp [assemble, ofRecords, SortedSet.mem_toList]

theorem mem_ownedRecords {coloring : Coloring} {record : EntityRecord} :
    record ∈ coloring.ownedRecords ↔ record ∈ coloring.exclusive ∨ record ∈ coloring.shared :=
  List.mem_append

theorem mem_ownedRecords_assemble {record : EntityRecord} :
    record ∈ (assemble size primary copies seat).ownedRecords ↔
      ∃ id ∈ primary seat, originalAt size primary copies seat id = record := by
  rw [mem_ownedRecords, mem_exclusive_assemble, mem_shared_assemble, ← and_or_left]
  cases record.sharers.isEmpty <;> simp

/-! ## Agreement -/

section Agreement

variable {colorings : Seat → Coloring} {summaries : Seat → Summary}
  (assembled : ∀ seat : Seat, seat.size = size → colorings seat = assemble size primary copies seat)

include assembled

/-- The ranks that an owner lists are those that have a copy from it. -/
theorem mem_sharersOf_iff_ghost (ownerInGroup : owner.size = size) {rank : Rank} :
    rank ∈ sharersOf size copies owner id ↔ ∃ user : Seat, user.size = size ∧ user.rank = rank ∧
      ∃ ghost ∈ (colorings user).ghost, ghost.id = id ∧ ghost.owner = owner.rank := by
  rw [mem_sharersOf]
  apply exists_congr
  intro user
  apply and_congr_right
  intro userInGroup
  apply and_congr_right
  intro _
  rw [assembled user userInGroup]
  constructor
  · intro copied
    exists recordAt primary owner id
    constructor
    · exact mem_ghost_assemble.2 ⟨owner, ownerInGroup, id, copied, rfl⟩
    · exact ⟨rfl, rfl⟩
  · rintro ⟨ghost, member, sameId, sameOwner⟩
    rcases mem_ghost_assemble.1 member with ⟨other, otherInGroup, _, copied, rfl⟩
    rw [← Seat.eq_of_rank (otherInGroup.trans ownerInGroup.symm) sameOwner]
    exact sameId ▸ copied

/-- Colorings that are filled from what the ranks copy agree. -/
theorem consistent_of_assembled (lawful : LawfulCopies size primary copies)
    (summarized : ∀ seat : Seat, seat.size = size → summaries seat = (colorings seat).summarize) :
    Consistent size colorings summaries := by
  constructor
  · intro owner ownerInGroup id
    simp only [assembled owner ownerInGroup, primary_assemble, mem_ownedRecords_assemble]
    constructor
    · intro owned
      exact ⟨_, ⟨id, owned, rfl⟩, rfl⟩
    · rintro ⟨_, ⟨id, owned, rfl⟩, rfl⟩
      exact owned
  · intro user userInGroup ghost member
    rw [assembled user userInGroup, mem_ghost_assemble] at member
    rcases member with ⟨owner, ownerInGroup, id, copied, rfl⟩
    constructor
    · exact lawful.apart userInGroup ownerInGroup copied
    · refine ⟨owner, ownerInGroup, rfl, ?_, originalAt size primary copies owner id, ?_, rfl, rfl, ?_⟩
      · rw [assembled owner ownerInGroup, primary_assemble]
        exact SortedSet.toNat_countBelow _ _
      · rw [assembled owner ownerInGroup, mem_ownedRecords_assemble]
        exact ⟨id, lawful.owned user owner userInGroup ownerInGroup id copied, rfl⟩
      · exact mem_sharersOf.2 ⟨user, userInGroup, rfl, copied⟩
  · intro owner ownerInGroup original member rank
    rw [assembled owner ownerInGroup, mem_ownedRecords_assemble] at member
    rcases member with ⟨id, owned, rfl⟩
    exact mem_sharersOf_iff_ghost assembled ownerInGroup
  · intro owner ownerInGroup original member
    rw [assembled owner ownerInGroup, mem_ownedRecords_assemble] at member
    rw [assembled owner ownerInGroup, mem_exclusive_assemble, and_iff_right member]
    rcases member with ⟨id, owned, rfl⟩
    rw [SortedSet.isEmpty_iff]
    constructor
    · intro unshared user userInGroup ghost copied sameId sameOwner
      exact unshared user.rank ((mem_sharersOf_iff_ghost assembled ownerInGroup).2
        ⟨user, userInGroup, rfl, ghost, copied, sameId, sameOwner⟩)
    · intro uncopied rank shared
      rcases (mem_sharersOf_iff_ghost assembled ownerInGroup).1 shared with
        ⟨user, userInGroup, _, ghost, copied, sameId, sameOwner⟩
      exact uncopied user userInGroup ghost copied sameId sameOwner
  · intro owner user ownerInGroup userInGroup
    rw [summarized owner ownerInGroup, summarized user userInGroup, summarize, summarize]
    simp only [SortedSet.mem_ofList, List.mem_flatMap, List.mem_map, SortedSet.mem_toList]
    rw [assembled owner ownerInGroup]
    constructor
    · rintro ⟨original, member, shared⟩
      rw [mem_shared_assemble] at member
      rcases member with ⟨⟨id, _, rfl⟩, _⟩
      rcases (mem_sharersOf_iff_ghost assembled ownerInGroup).1 shared with
        ⟨other, otherInGroup, sameRank, ghost, copied, _, sameOwner⟩
      rw [← Seat.eq_of_rank (otherInGroup.trans userInGroup.symm) sameRank]
      exact ⟨ghost, copied, sameOwner⟩
    · rintro ⟨ghost, member, sameOwner⟩
      have listed : user.rank ∈ sharersOf size copies owner ghost.id :=
        (mem_sharersOf_iff_ghost assembled ownerInGroup).2
          ⟨user, userInGroup, rfl, ghost, member, rfl, sameOwner⟩
      rcases mem_sharersOf.1 listed with ⟨other, otherInGroup, _, copied⟩
      exists originalAt size primary copies owner ghost.id
      constructor
      · rw [mem_shared_assemble]
        constructor
        · exact ⟨ghost.id, lawful.owned other owner otherInGroup ownerInGroup _ copied, rfl⟩
        · rw [Bool.eq_false_iff, ne_eq, SortedSet.isEmpty_iff]
          intro unshared
          exact unshared _ listed
      · exact listed

end Agreement

/-! ## The check -/

/-- A coloring keeps its own rules on the rank that has it. -/
structure WellFormed (seat : Seat) (coloring : Coloring) : Prop where
  /-- What is owned is what is exclusive or shared. -/
  primary : ∀ id, id ∈ coloring.primary ↔ id ∈ coloring.exclusiveIds ∨ id ∈ coloring.sharedIds
  /-- No id has two owned records, so none is both exclusive and shared. -/
  distinct : (coloring.ownedRecords.map EntityRecord.id).Nodup
  owner : ∀ record ∈ coloring.ownedRecords, record.owner = seat.rank
  exclusive : ∀ record ∈ coloring.exclusive, record.sharers = ∅
  shared : ∀ record ∈ coloring.shared, record.sharers ≠ ∅ ∧ seat.rank ∉ record.sharers
  ghost : ∀ record ∈ coloring.ghost, record.sharers = ∅
  /-- No id has two ghosts. -/
  ghostIds : (coloring.ghost.toList.map EntityRecord.id).Nodup
  foreign : ∀ record ∈ coloring.ghost, record.id ∉ coloring.primary
  /-- Ghosts belong to other ranks of the group. -/
  elsewhere : ∀ record ∈ coloring.ghost, record.owner ≠ seat.rank ∧ record.owner < seat.size

/-- A coloring keeps the rules that can be checked without knowing the rank that has it. -/
structure Accepted (coloring : Coloring) : Prop where
  primary : ∀ id, id ∈ coloring.primary ↔ id ∈ coloring.exclusiveIds ∨ id ∈ coloring.sharedIds
  distinct : (coloring.ownedRecords.map EntityRecord.id).Nodup
  shared : ∀ record ∈ coloring.shared, record.sharers ≠ ∅
  foreign : ∀ record ∈ coloring.ghost, record.id ∉ coloring.primary
  ghostIds : (coloring.ghost.toList.map EntityRecord.id).Nodup
  /-- The owner of the first owned record stands for the rank itself. -/
  elsewhere : ∀ first, coloring.ownedRecords.head? = some first →
    ∀ record ∈ coloring.ghost, record.owner ≠ first.owner

theorem mem_idsOf {records : RecordSet} :
    id ∈ idsOf records ↔ ∃ record ∈ records, record.id = id := by
  simp [idsOf, SortedSet.mem_toList]

/-- There are as many ids as records exactly if the ids of the records differ. -/
theorem size_idsOf_eq_iff {records : RecordSet} :
    (idsOf records).size = records.size ↔ (records.toList.map EntityRecord.id).Nodup := by
  rw [idsOf, ← SortedSet.size_ofList_eq_iff, List.length_map]
  rfl

/-- No id has two owned records exactly if there is one record for each exclusive or shared id, and no
id is both. -/
theorem nodup_ownedIds_iff {coloring : Coloring} :
    (coloring.ownedRecords.map EntityRecord.id).Nodup ↔
      coloring.exclusiveIds.size = coloring.exclusive.size ∧
        coloring.sharedIds.size = coloring.shared.size ∧
        coloring.exclusiveIds ∩ coloring.sharedIds = ∅ := by
  rw [ownedRecords, List.map_append, List.nodup_append, exclusiveIds, sharedIds, size_idsOf_eq_iff,
    size_idsOf_eq_iff]
  apply and_congr_right
  intro _
  apply and_congr_right
  intro _
  constructor
  · intro apart
    ext id
    rw [SortedSet.mem_inter, idsOf, idsOf, SortedSet.mem_ofList, SortedSet.mem_ofList]
    constructor
    · rintro ⟨exclusive, shared⟩
      exact absurd rfl (apart id exclusive id shared)
    · intro member
      exact absurd member (SortedSet.not_mem_empty id)
  · rintro disjoint id exclusive _ shared rfl
    apply SortedSet.not_mem_empty id
    rw [← disjoint, SortedSet.mem_inter]
    exact ⟨SortedSet.mem_ofList.2 exclusive, SortedSet.mem_ofList.2 shared⟩

/-- Ghosts pass that are not owned and whose ids differ: by induction on them, for any ids seen before. -/
theorem checkGhosts_eq_ok_iff {owned seen : IdSet} {ghosts : List EntityRecord} :
    checkGhosts owned seen ghosts = .ok () ↔
      (∀ ghost ∈ ghosts, ghost.id ∉ owned) ∧ (∀ ghost ∈ ghosts, ghost.id ∉ seen) ∧
        (ghosts.map EntityRecord.id).Nodup := by
  induction ghosts generalizing seen with
  | nil => simp [checkGhosts]
  | cons head rest ih =>
      rw [checkGhosts, List.forall_mem_cons, List.forall_mem_cons, List.map_cons, List.nodup_cons]
      by_cases owns : head.id ∈ owned
      · rw [if_pos owns]
        exact iff_of_false nofun fun passes => passes.1.1 owns
      rw [if_neg owns]
      by_cases twice : head.id ∈ seen
      · rw [if_pos twice]
        exact iff_of_false nofun fun passes => passes.2.1.1 twice
      rw [if_neg twice, ih]
      constructor
      · rintro ⟨foreign, fresh, distinct⟩
        refine ⟨⟨owns, foreign⟩, ⟨twice, ?_⟩, ?_, distinct⟩
        · intro ghost member seen
          exact fresh ghost member (SortedSet.mem_insert.2 (.inr seen))
        · intro again
          rcases List.mem_map.1 again with ⟨ghost, member, same⟩
          exact fresh ghost member (SortedSet.mem_insert.2 (.inl same))
      · rintro ⟨⟨_, foreign⟩, ⟨_, fresh⟩, apart, distinct⟩
        refine ⟨foreign, ?_, distinct⟩
        intro ghost member seen
        cases SortedSet.mem_insert.1 seen with
        | inl same => exact apart (List.mem_map.2 ⟨ghost, member, same⟩)
        | inr seen => exact fresh ghost member seen

theorem find?_unshared_eq_none_iff {coloring : Coloring} :
    (coloring.shared.toList.find? fun record => record.sharers.isEmpty) = none ↔
      ∀ record ∈ coloring.shared, record.sharers ≠ ∅ := by
  rw [List.find?_eq_none]
  apply forall₂_congr
  intro record _
  rw [SortedSet.isEmpty_iff, not_iff_not]
  constructor
  · intro unshared
    ext rank
    exact iff_of_false (unshared rank) (SortedSet.not_mem_empty rank)
  · rintro unshared rank
    rw [unshared]
    exact SortedSet.not_mem_empty rank

/-- The check passes exactly the colorings that keep its rules. -/
theorem checkInvariants_eq_ok_iff {coloring : Coloring} :
    coloring.checkInvariants = .ok () ↔ coloring.Accepted := by
  constructor
  · intro passed
    rw [checkInvariants] at passed
    rcases refuse_eq_ok.1 passed with ⟨sizes, passed⟩
    rcases not_or.1 sizes with ⟨exclusiveSize, sharedSize⟩
    cases common : (coloring.exclusiveIds ∩ coloring.sharedIds).toList with
    | cons id rest =>
        rw [common] at passed
        cases passed
    | nil =>
        rw [common] at passed
        rcases refuse_eq_ok.1 passed with ⟨covered, passed⟩
        cases unused : coloring.shared.toList.find? fun record => record.sharers.isEmpty with
        | some record =>
            rw [unused] at passed
            cases passed
        | none =>
            rw [unused] at passed
            rcases bind_eq_ok.1 passed with ⟨_, ghosts, passed⟩
            rcases checkGhosts_eq_ok_iff.1 ghosts with ⟨foreign, _, ghostIds⟩
            refine ⟨?_, ?_, find?_unshared_eq_none_iff.1 unused, foreign, ghostIds, ?_⟩
            · intro id
              rw [← not_not.1 covered, SortedSet.mem_union]
            · exact nodup_ownedIds_iff.2
                ⟨not_not.1 exclusiveSize, not_not.1 sharedSize, SortedSet.eq_of_toList_eq common⟩
            · intro first isFirst ghost member same
              rw [isFirst] at passed
              dsimp only at passed
              cases own : coloring.ghost.toList.find? (·.owner == first.owner) with
              | some ghost =>
                  rw [own] at passed
                  cases passed
              | none => exact List.find?_eq_none.1 own ghost member (beq_iff_eq.2 same)
  · intro accepted
    rcases nodup_ownedIds_iff.1 accepted.distinct with ⟨exclusiveSize, sharedSize, disjoint⟩
    have covered : coloring.exclusiveIds ∪ coloring.sharedIds = coloring.primary := by
      ext id
      rw [SortedSet.mem_union, accepted.primary]
    have used := find?_unshared_eq_none_iff.2 accepted.shared
    have ghosts : checkGhosts coloring.primary ∅ coloring.ghost.toList = .ok () :=
      checkGhosts_eq_ok_iff.2
        ⟨accepted.foreign, fun _ _ => SortedSet.not_mem_empty _, accepted.ghostIds⟩
    simp only [checkInvariants, exclusiveSize, sharedSize, disjoint, covered, used, ghosts, ne_eq,
      not_true_eq_false, or_self, if_false, SortedSet.toList_empty, List.head?_nil]
    cases first : coloring.ownedRecords.head? with
    | none => rfl
    | some record =>
        have elsewhere : coloring.ghost.toList.find? (·.owner == record.owner) = none := by
          rw [List.find?_eq_none]
          intro ghost member
          rw [beq_iff_eq]
          exact accepted.elsewhere record first ghost member
        simp only [elsewhere]
        rfl

theorem WellFormed.accepted {coloring : Coloring} (wellFormed : WellFormed seat coloring) :
    coloring.Accepted where
  primary := wellFormed.primary
  distinct := wellFormed.distinct
  shared record member := (wellFormed.shared record member).1
  foreign := wellFormed.foreign
  ghostIds := wellFormed.ghostIds
  elsewhere first isFirst ghost member := by
    rw [wellFormed.owner first (List.mem_of_head? isFirst)]
    exact (wellFormed.elsewhere ghost member).1

/-- A coloring that keeps its rules passes its check. -/
theorem WellFormed.checkInvariants_eq_ok {coloring : Coloring} (wellFormed : WellFormed seat coloring) :
    coloring.checkInvariants = .ok () :=
  checkInvariants_eq_ok_iff.2 wellFormed.accepted

theorem mem_exclusiveIds_assemble :
    id ∈ (assemble size primary copies seat).exclusiveIds ↔
      id ∈ primary seat ∧ (sharersOf size copies seat id).isEmpty = true := by
  rw [exclusiveIds, mem_idsOf]
  constructor
  · rintro ⟨record, member, rfl⟩
    rcases mem_exclusive_assemble.1 member with ⟨⟨id, owned, rfl⟩, unshared⟩
    exact ⟨owned, unshared⟩
  · rintro ⟨owned, unshared⟩
    exact ⟨_, mem_exclusive_assemble.2 ⟨⟨id, owned, rfl⟩, unshared⟩, rfl⟩

theorem mem_sharedIds_assemble :
    id ∈ (assemble size primary copies seat).sharedIds ↔
      id ∈ primary seat ∧ (sharersOf size copies seat id).isEmpty = false := by
  rw [sharedIds, mem_idsOf]
  constructor
  · rintro ⟨record, member, rfl⟩
    rcases mem_shared_assemble.1 member with ⟨⟨id, owned, rfl⟩, shared⟩
    exact ⟨owned, shared⟩
  · rintro ⟨owned, shared⟩
    exact ⟨_, mem_shared_assemble.2 ⟨⟨id, owned, rfl⟩, shared⟩, rfl⟩

/-- An owner has one record of each id, exclusive or shared. -/
theorem nodup_ownedIds_assemble :
    ((assemble size primary copies seat).ownedRecords.map EntityRecord.id).Nodup := by
  have single : ∀ first ∈ (assemble size primary copies seat).ownedRecords,
      ∀ second ∈ (assemble size primary copies seat).ownedRecords,
      first.id = second.id → first = second := by
    intro first firstInside second secondInside same
    rcases mem_ownedRecords_assemble.1 firstInside with ⟨_, _, rfl⟩
    rcases mem_ownedRecords_assemble.1 secondInside with ⟨_, _, rfl⟩
    cases same
    rfl
  apply List.Nodup.map_on single
  apply List.nodup_append.2
  refine ⟨SortedSet.nodup_toList _, SortedSet.nodup_toList _, ?_⟩
  rintro record exclusive _ shared rfl
  have unshared := (mem_exclusive_assemble.1 exclusive).2
  rw [(mem_shared_assemble.1 shared).2] at unshared
  cases unshared

/-- A coloring that is filled from what the ranks copy keeps its rules on every rank that copies
lawfully, whatever the others copy. -/
theorem wellFormed_assemble (lawful : LawfulFor size primary copies seat)
    (inGroup : seat.size = size) : WellFormed seat (assemble size primary copies seat) := by
  constructor
  · intro id
    rw [primary_assemble, mem_exclusiveIds_assemble, mem_sharedIds_assemble, ← and_or_left]
    cases (sharersOf size copies seat id).isEmpty <;> simp
  · exact nodup_ownedIds_assemble
  · intro record owned
    rcases mem_ownedRecords_assemble.1 owned with ⟨_, _, rfl⟩
    rfl
  · intro record exclusive
    have unshared := SortedSet.isEmpty_iff.1 (mem_exclusive_assemble.1 exclusive).2
    ext rank
    exact iff_of_false (unshared rank) (SortedSet.not_mem_empty rank)
  · intro record shared
    rcases mem_shared_assemble.1 shared with ⟨⟨id, _, rfl⟩, used⟩
    constructor
    · intro unshared
      rw [unshared] at used
      cases used
    · intro own
      rcases mem_sharersOf.1 own with ⟨user, userInGroup, same, copied⟩
      have here := Seat.eq_of_rank (userInGroup.trans inGroup.symm) same
      subst here
      exact lawful.apart user inGroup id copied rfl
  · intro record member
    rcases mem_ghost_assemble.1 member with ⟨_, _, _, _, rfl⟩
    rfl
  · apply List.Nodup.map_on _ (SortedSet.nodup_toList _)
    intro first firstInside second secondInside same
    rcases mem_ghost_assemble.1 firstInside with ⟨owner, ownerInGroup, id, copied, rfl⟩
    rcases mem_ghost_assemble.1 secondInside with ⟨other, otherInGroup, _, copiedToo, rfl⟩
    cases same
    rw [lawful.once owner other ownerInGroup otherInGroup id copied copiedToo]
  · intro record member
    rcases mem_ghost_assemble.1 member with ⟨owner, ownerInGroup, id, copied, rfl⟩
    rw [primary_assemble]
    exact lawful.foreign owner ownerInGroup id copied
  · intro record member
    rcases mem_ghost_assemble.1 member with ⟨owner, ownerInGroup, id, copied, rfl⟩
    constructor
    · exact lawful.apart owner ownerInGroup id copied
    · rw [inGroup, ← ownerInGroup]
      exact owner.rank_lt

theorem nodup_ghostIds_assemble (lawful : LawfulCopies size primary copies)
    (inGroup : seat.size = size) :
    ((assemble size primary copies seat).ghost.toList.map EntityRecord.id).Nodup :=
  (wellFormed_assemble (lawful.lawfulFor inGroup) inGroup).ghostIds

/-- A coloring that is filled from what the ranks copy passes its check. -/
theorem checkInvariants_assemble (lawful : LawfulCopies size primary copies)
    (inGroup : seat.size = size) :
    (assemble size primary copies seat).checkInvariants = .ok () :=
  (wellFormed_assemble (lawful.lawfulFor inGroup) inGroup).checkInvariants_eq_ok

end Coloring

end Subdomain

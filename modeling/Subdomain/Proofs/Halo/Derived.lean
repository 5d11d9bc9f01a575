import Subdomain.Halo.Derived
import Subdomain.Proofs.Halo.Primary

/-!
# Colorings of derived entities

The coloring of derived entities comes to an end on every rank exactly when every rank can tell who owns
the entities it references, the owners have what is requested from them, and every rank that an owner
knows to reference an entity has requested it.
-/

namespace Subdomain

open Exchange Subdomain.Group Ownership

/-- What the ranks of a group derive entities from. -/
structure Derivation where
  adjacency : Seat → Adjacency
  halo : Seat → PrimaryHalo
  dim : Nat

namespace Derivation

variable (derivation : Derivation) (size : Rank) (seat : Seat)

/-- The entities that a rank references. -/
def entities : IdSet :=
  ((derivation.adjacency seat).entityClosure (derivation.halo seat).closure
    derivation.dim).toOption.getD ∅

/-- Who owns an entity, as far as a rank can see. -/
def claim (id : EntityId) : Derived.Claim :=
  (Derived.claim (derivation.adjacency seat) (derivation.halo seat) seat.rank derivation.dim
    id).toOption.getD ⟨Derived.nobody, ∅⟩

/-- The entities that a rank owns. -/
def primary : IdSet :=
  (derivation.entities seat).filter fun id => (derivation.claim seat id).owner == seat.rank

/-- The entities that a rank copies from another. -/
def copies (user owner : Seat) : IdSet :=
  (derivation.entities user).filter fun id =>
    (derivation.claim user id).owner == owner.rank && owner.rank != user.rank

/-- The coloring of the entities that a rank references. -/
def coloring : Coloring := .assemble size derivation.primary derivation.copies seat

/-- The entities of a group can be colored. -/
structure Derivable : Prop where
  entities : ∀ seat : Seat, seat.size = size →
    (derivation.adjacency seat).entityClosure (derivation.halo seat).closure derivation.dim =
      .ok (derivation.entities seat)
  claims : ∀ seat : Seat, seat.size = size → ∀ id ∈ derivation.entities seat,
    Derived.claim (derivation.adjacency seat) (derivation.halo seat) seat.rank derivation.dim id =
      .ok (derivation.claim seat id) ∧ (derivation.claim seat id).owner < size
  answerable : Answerable size derivation.primary derivation.copies
  users : ∀ owner : Seat, owner.size = size → ∀ id ∈ derivation.primary owner,
    ∀ rank ∈ (derivation.claim owner id).users, rank ∈ sharersOf size derivation.copies owner id

variable {derivation size seat} {id : EntityId}

theorem mem_copies {user owner : Seat} :
    id ∈ derivation.copies user owner ↔ id ∈ derivation.entities user ∧
      (derivation.claim user id).owner = owner.rank ∧ owner.rank ≠ user.rank := by
  simp [copies]

theorem mem_primary :
    id ∈ derivation.primary seat ↔
      id ∈ derivation.entities seat ∧ (derivation.claim seat id).owner = seat.rank := by
  simp [primary]

/-- A rank copies each entity from the one rank that it takes for the owner, and none that it takes for
its own. -/
theorem lawfulFor : LawfulFor size derivation.primary derivation.copies seat := by
  constructor
  · intro owner _ id copied
    exact (mem_copies.1 copied).2.2
  · intro owner _ id copied owned
    rcases mem_copies.1 copied with ⟨_, claimed, apart⟩
    exact apart (claimed.symm.trans (mem_primary.1 owned).2)
  · intro owner other ownerInGroup otherInGroup id copied copiedToo
    rcases mem_copies.1 copied with ⟨_, claimed, _⟩
    rcases mem_copies.1 copiedToo with ⟨_, claimedToo, _⟩
    exact Seat.eq_of_rank (ownerInGroup.trans otherInGroup.symm) (claimed.symm.trans claimedToo)

/-- What ranks copy when the owners have what is requested. -/
theorem lawful_copies (answerable : Answerable size derivation.primary derivation.copies) :
    LawfulCopies size derivation.primary derivation.copies where
  owned user owner userInGroup ownerInGroup := answerable.owned owner user ownerInGroup userInGroup
  foreign _ owner _ ownerInGroup := lawfulFor.foreign owner ownerInGroup
  once _ owner other _ ownerInGroup otherInGroup := lawfulFor.once owner other ownerInGroup otherInGroup

end Derivation

namespace Derived

variable {β : Type} {patience : Patience} {size : Rank} {values : Seat → β} {seat : Seat}
  {derivation : Derivation} {id : EntityId}

theorem entities_eq {ids : IdSet}
    (done : (derivation.adjacency seat).entityClosure (derivation.halo seat).closure
      derivation.dim = .ok ids) : ids = derivation.entities seat := by
  rw [Derivation.entities, done]
  rfl

theorem claim_eq {claim : Claim}
    (done : Derived.claim (derivation.adjacency seat) (derivation.halo seat) seat.rank derivation.dim
      id = .ok claim) : claim = derivation.claim seat id := by
  rw [Derivation.claim, done]
  rfl

/-- What one step of `claims` gives. -/
theorem claimed_eq_ok_iff {first : Except Error Claim} {result : EntityId × Claim} :
    (do
      let claim ← first
      if seat.size ≤ claim.owner then throw (Error.defect .indexOutOfRange)
      return (id, claim)) = .ok result ↔
      ∃ found, first = .ok found ∧ found.owner < seat.size ∧ (id, found) = result := by
  rw [bind_eq_ok]
  apply exists_congr
  intro found
  apply and_congr_right
  intro _
  rw [← UInt64.not_le]
  by_cases outside : seat.size ≤ found.owner
  · simp [outside, throw, throwThe, MonadExceptOf.throw, bind, Except.bind]
  · simp [outside, pure, Except.pure]

/-- The claims of a rank on all that it references. -/
theorem claims_succeed_iff (inGroup : seat.size = size) :
    (∃ found, claims seat (derivation.adjacency seat) (derivation.halo seat) derivation.dim
      (derivation.entities seat) = .ok found) ↔
      ∀ id ∈ derivation.entities seat,
        claim (derivation.adjacency seat) (derivation.halo seat) seat.rank derivation.dim id =
          .ok (derivation.claim seat id) ∧ (derivation.claim seat id).owner < size := by
  rw [claims, mapM_succeeds_iff]
  apply forall_congr'
  intro id
  apply imp_congr_right
  intro _
  simp only [claimed_eq_ok_iff]
  rw [Derivation.claim, inGroup]
  cases claim (derivation.adjacency seat) (derivation.halo seat) seat.rank derivation.dim id with
  | error error => simp
  | ok found => simp [Except.toOption]

/-- The claims of a rank, if it can tell who owns all that it references. -/
theorem claims_eq {found : List (EntityId × Claim)} (inGroup : seat.size = size)
    (done : claims seat (derivation.adjacency seat) (derivation.halo seat) derivation.dim
      (derivation.entities seat) = .ok found) :
    found = (derivation.entities seat).toList.map fun id => (id, derivation.claim seat id) := by
  have each := (claims_succeed_iff inGroup).1 ⟨found, done⟩
  have known : claims seat (derivation.adjacency seat) (derivation.halo seat) derivation.dim
      (derivation.entities seat) =
      .ok ((derivation.entities seat).toList.map fun id => (id, derivation.claim seat id)) := by
    apply mapM_eq_ok_map
    intro id member
    rcases each id member with ⟨claimed, inside⟩
    exact claimed_eq_ok_iff.2 ⟨_, claimed, inGroup ▸ inside, rfl⟩
  exact Except.ok.inj (done.symm.trans known)

/-! ## What a rank asks and how it numbers -/

/-- The entities that a rank owns, each with its claim and number. -/
theorem owned_eq :
    (((derivation.entities seat).toList.map fun id => (id, derivation.claim seat id)).filter
      fun entry => entry.2.owner == seat.rank).zipIdx =
      (derivation.primary seat).toList.map fun id =>
        ((id, derivation.claim seat id), (derivation.primary seat).countBelow id) := by
  rw [List.filter_map, List.zipIdx_map]
  have filtered : (derivation.entities seat).toList.filter
      ((fun entry => entry.2.owner == seat.rank) ∘ fun id => (id, derivation.claim seat id)) =
      (derivation.primary seat).toList := rfl
  rw [filtered, SortedSet.zipIdx_toList, List.map_map]
  rfl

theorem requests_eq (inGroup : seat.size = size) :
    (seat.ranks.map fun rank => (rank, SortedSet.ofList
      ((((derivation.entities seat).toList.map fun id => (id, derivation.claim seat id)).filter
        fun entry => entry.2.owner == rank && rank != seat.rank).map Prod.fst))) =
      (Seat.all size).map fun owner => (owner.rank, derivation.copies seat owner) := by
  rw [Seat.map_ranks inGroup]
  apply List.map_congr_left
  intro owner _
  rw [List.filter_map, List.map_map]
  congr 1
  ext id
  simp [Derivation.mem_copies, SortedSet.mem_toList]

theorem numbering_eq (set : IdSet) :
    SortedMap.ofList (set.toList.map fun id => (id, UInt64.ofNat (set.countBelow id))) =
      set.numbering := by
  have distinct : ((set.toList.map fun id =>
      (id, UInt64.ofNat (set.countBelow id))).map Prod.fst).Nodup := by
    rw [List.map_map]
    exact (List.map_id set.toList).symm ▸ set.nodup_toList
  ext id number
  rw [SortedMap.get?_ofList_eq_some_iff distinct, SortedSet.get?_numbering]
  simp [SortedSet.mem_toList, eq_comm]

/-! ## What a rank makes of the answers -/

theorem getD_requesters {primary : Seat → IdSet} {copies : Seat → Seat → IdSet}
    (owned : id ∈ primary seat) :
    ((offsetAnswerOf size primary copies seat).requesters.get? id).getD ∅ =
      sharersOf size copies seat id := by
  rw [offsetAnswerOf, SortedMap.get?_ofKeys, if_pos owned]
  dsimp only
  split
  · next unshared =>
    ext rank
    simp [SortedSet.isEmpty_iff.1 unshared]
  · rfl

theorem ownedRecord_eq_ok_iff {primary : Seat → IdSet} {copies : Seat → Seat → IdSet} {claim : Claim}
    {record : EntityRecord} (owned : id ∈ primary seat) :
    ownedRecord seat.rank (offsetAnswerOf size primary copies seat).requesters id claim
        (.ofNat ((primary seat).countBelow id)) = .ok record ↔
      (∀ rank ∈ claim.users, rank ∈ sharersOf size copies seat id) ∧
        Coloring.originalAt size primary copies seat id = record := by
  rw [ownedRecord, getD_requesters owned]
  cases missing : (claim.users \ sharersOf size copies seat id).toList with
  | nil =>
      have covered : ∀ rank ∈ claim.users, rank ∈ sharersOf size copies seat id := by
        intro rank used
        apply Classical.byContradiction
        intro absent
        have member := SortedSet.mem_toList.2 (SortedSet.mem_sdiff.2 ⟨used, absent⟩)
        rw [missing] at member
        cases member
      simp only [List.head?_nil, Except.ok.injEq, Coloring.originalAt]
      exact (and_iff_right covered).symm
  | cons rank rest =>
      have member : rank ∈ (claim.users \ sharersOf size copies seat id).toList :=
        missing ▸ List.mem_cons_self
      rcases SortedSet.mem_sdiff.1 (SortedSet.mem_toList.1 member) with ⟨used, absent⟩
      simp only [List.head?_cons, reduceCtorEq, false_iff, not_and]
      intro covered
      exact absurd (covered rank used) absent

theorem ownedRecords_eq {primary : Seat → IdSet} {copies : Seat → Seat → IdSet}
    {claimed : EntityId → Claim} {records : List EntityRecord}
    (done : (primary seat).toList.mapM (fun id => ownedRecord seat.rank
      (offsetAnswerOf size primary copies seat).requesters id (claimed id)
      (.ofNat ((primary seat).countBelow id))) = .ok records) :
    records = (primary seat).toList.map (Coloring.originalAt size primary copies seat) := by
  have known : (primary seat).toList.mapM (fun id => ownedRecord seat.rank
      (offsetAnswerOf size primary copies seat).requesters id (claimed id)
      (.ofNat ((primary seat).countBelow id))) =
      .ok ((primary seat).toList.map (Coloring.originalAt size primary copies seat)) := by
    apply mapM_eq_ok_map
    intro id owned
    rcases mapM_succeeds_iff.1 ⟨records, done⟩ id owned with ⟨record, step⟩
    rcases (ownedRecord_eq_ok_iff owned).1 step with ⟨_, rfl⟩
    exact step
  exact Except.ok.inj (done.symm.trans known)

theorem ghostRecords_eq {primary : Seat → IdSet} {copies : Seat → Seat → IdSet} :
    SortedSet.ofList (ghostRecords
      ((Seat.all size).map fun owner => (owner.rank, copies seat owner))
      (offsetAnswerOf size primary copies seat).offsets) = ghostsOf size primary copies seat := by
  rw [ghostRecords, offsetAnswerOf, List.zip_map', List.flatMap_map, ghostsOf]
  congr 1
  apply List.flatMap_congr
  intro owner _
  dsimp only
  rw [← List.map_prod_left_eq_zip, List.map_map]
  rfl

/-- The coloring of derived entities comes to an end on every rank exactly when they can be colored. -/
theorem completes_color_iff (derivation : Derivation)
    {next : Seat → Coloring × Summary → Collective β} :
    Completes patience size (fun seat =>
        color seat (derivation.adjacency seat) (derivation.halo seat) derivation.dim >>= next seat)
        values ↔
      derivation.Derivable size ∧ Completes patience size (fun seat => next seat
        (derivation.coloring size seat, (derivation.coloring size seat).summarize)) values := by
  simp only [color, bind_assoc, pure_bind]
  apply Iff.trans (completes_checked_iff fun seat inGroup ids done => by
    rw [entities_eq done])
  apply Iff.trans (and_congr_right fun _ => completes_checked_iff fun seat inGroup found done => by
    rw [claims_eq inGroup done, owned_eq, requests_eq inGroup, List.map_map, List.map_map])
  have numbered : ∀ seat, SortedMap.ofList ((derivation.primary seat).toList.map
      ((fun entry : (EntityId × Claim) × Nat => (entry.1.1, UInt64.ofNat entry.2)) ∘ fun id =>
        ((id, derivation.claim seat id), (derivation.primary seat).countBelow id))) =
      (derivation.primary seat).numbering := fun seat => numbering_eq (derivation.primary seat)
  have requested : ∀ seat, (Seat.all size).map
      (Prod.snd ∘ fun owner => (owner.rank, derivation.copies seat owner)) =
      (Seat.all size).map (derivation.copies seat) := fun _ => rfl
  simp only [numbered, requested]
  rw [completes_offsets_iff]
  simp only [ghostRecords_eq, List.mapM_map]
  apply Iff.trans (and_congr_right fun _ => and_congr_right fun _ => and_congr_right fun _ =>
    completes_checked_iff fun seat inGroup found done => by rw [ownedRecords_eq done])
  have recorded : ∀ seat : Seat, (∃ value, (derivation.primary seat).toList.mapM
      ((fun entry : (EntityId × Claim) × Nat => ownedRecord seat.rank
        (offsetAnswerOf size derivation.primary derivation.copies seat).requesters entry.1.1 entry.1.2
        (.ofNat entry.2)) ∘ fun id =>
          ((id, derivation.claim seat id), (derivation.primary seat).countBelow id)) = .ok value) ↔
      ∀ id ∈ derivation.primary seat, ∀ rank ∈ (derivation.claim seat id).users,
        rank ∈ sharersOf size derivation.copies seat id := by
    intro seat
    rw [mapM_succeeds_iff]
    apply forall_congr'
    intro id
    apply forall_congr'
    intro owned
    dsimp only [Function.comp]
    simp only [ownedRecord_eq_ok_iff (SortedSet.mem_toList.1 owned), exists_and_left, exists_eq',
      and_true]
  simp only [recorded]
  constructor
  · rintro ⟨entities, claims, answerable, users, completes⟩
    refine ⟨⟨?_, ?_, answerable, users⟩, completes⟩
    · intro seat inGroup
      rcases entities seat inGroup with ⟨ids, done⟩
      rw [done, entities_eq done]
    · intro seat inGroup
      exact (claims_succeed_iff inGroup).1 (claims seat inGroup)
  · rintro ⟨derivable, completes⟩
    refine ⟨?_, ?_, derivable.answerable, derivable.users, completes⟩
    · intro seat inGroup
      exact ⟨_, derivable.entities seat inGroup⟩
    · intro seat inGroup
      exact (claims_succeed_iff inGroup).2 (derivable.claims seat inGroup)

end Derived

namespace Decomposition

variable {patience : Patience} {size : Rank} {parts : Decomposition} {dim : Nat}

/-- What entities of a dimension are derived from once the cells are colored. -/
def derivation (parts : Decomposition) (size : Rank) (dim : Nat) : Derivation where
  adjacency := parts.adjacency
  halo := parts.halo size
  dim := dim

/-- Color the cells of a rank and then the entities of a dimension. -/
def colorWith (parts : Decomposition) (dim : Nat) (seat : Seat) :
    Collective (PrimaryHalo × Coloring × Summary) := do
  let halo ← PrimaryHalo.color seat (parts.adjacency seat) (parts.primary seat) parts.config
  let derived ← Derived.color seat (parts.adjacency seat) halo dim
  return (halo, derived)

theorem completes_color_iff {halos : Seat → PrimaryHalo} :
    Completes patience size (fun seat =>
        PrimaryHalo.color seat (parts.adjacency seat) (parts.primary seat) parts.config) halos ↔
      parts.Colorable size ∧
        ∀ seat : Seat, seat.size = size → parts.halo size seat = halos seat := by
  apply Iff.trans (completes_congr fun seat _ => (bind_pure _).symm)
  rw [PrimaryHalo.completes_color_iff, completes_pure_iff]

theorem completes_colorWith_iff {results : Seat → PrimaryHalo × Coloring × Summary} :
    Completes patience size (parts.colorWith dim) results ↔
      parts.Colorable size ∧ (parts.derivation size dim).Derivable size ∧
        ∀ seat : Seat, seat.size = size → (parts.halo size seat,
          (parts.derivation size dim).coloring size seat,
          ((parts.derivation size dim).coloring size seat).summarize) = results seat := by
  apply Iff.trans PrimaryHalo.completes_color_iff
  apply and_congr_right
  intro _
  apply Iff.trans (Derived.completes_color_iff (parts.derivation size dim))
  rw [completes_pure_iff]

end Decomposition

end Subdomain

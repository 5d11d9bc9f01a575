import Subdomain.Proofs.Halo.Refusal
import Subdomain.Proofs.Message.Failure

/-!
# Requests for owners are exact

Whatever the ranks own and request, each rank's request to all ranks comes to an end of its own.  It
succeeds exactly if every id that the rank requested has a single owner, and then tells what there is to
know: who requested the ids owned here, and where the others are.  Else it names the smallest id that
nobody owns, or several do.
-/

namespace Subdomain

open Exchange Subdomain.Group

namespace Ownership

variable {size : Rank} {tag : Tag} {primary request : Seat → IdSet} {seat owner : Seat} {id : EntityId}

/-- A record says where the single owner of its id has it. -/
structure Locates (size : Rank) (primary : Seat → IdSet) (record : EntityRecord) (owner : Seat) :
    Prop where
  sole : SoleOwner size primary record.id owner
  names : record.owner = owner.rank
  /-- The offset is the position of the id in the owner's ascending set. -/
  position : (primary owner).toList[record.offset.toNat]? = some record.id
  sharers : record.sharers = ∅

/-- What a rank learns from a request that is answered in full. -/
structure Resolved (size : Rank) (primary request : Seat → IdSet) (seat : Seat)
    (resolution : Resolution) : Prop where
  /-- For each id owned here, in ascending order, the other ranks that requested it. -/
  users : List.Forall₂ (fun id ranks => ∀ rank, rank ∈ ranks ↔
      ∃ user : Seat, user.size = size ∧ user.rank = rank ∧ user ≠ seat ∧ id ∈ request user)
    (primary seat).toList resolution.users
  /-- Every requested id that is not owned here has exactly one record. -/
  one : ∀ id ∈ request seat, id ∉ primary seat →
    ∃! record, record ∈ resolution.remote ∧ record.id = id
  /-- There are no other records. -/
  each : ∀ record ∈ resolution.remote, record.id ∈ request seat ∧ record.id ∉ primary seat ∧
    ∃ owner, Locates size primary record owner

/-- How a request to all ranks ends on one of them. -/
inductive Resolves (size : Rank) (primary request : Seat → IdSet) (seat : Seat) :
    Except Error Resolution → Prop where
  /-- Everything that the rank requested has one owner. -/
  | resolved {resolution : Resolution}
      (owners : ∀ id ∈ request seat, ∃ owner, SoleOwner size primary id owner)
      (resolved : Resolved size primary request seat resolution) :
      Resolves size primary request seat (.ok resolution)
  /-- Something has none or several, and the error tells of the smallest such id. -/
  | refused {id : EntityId} {error : Error} (requested : id ∈ request seat)
      (ownerless : ¬ ∃ owner, SoleOwner size primary id owner)
      (misowned : Misowned size primary id error)
      (smallest : ∀ smaller ∈ request seat, smaller < id → ∃ owner, SoleOwner size primary smaller owner) :
      Resolves size primary request seat (.error error)

theorem locates_recordAt (sole : SoleOwner size primary id owner) :
    Locates size primary (recordAt primary owner id) owner where
  sole := sole
  names := rfl
  position := by
    change (primary owner).toList[(UInt64.ofNat ((primary owner).countBelow id)).toNat]? = some id
    rw [SortedSet.toNat_countBelow, SortedSet.getElem?_countBelow sole.owns]
  sharers := rfl

/-- An id that is misowned has no single owner: nobody owns it, or several ranks do. -/
theorem Misowned.not_soleOwner {error : Error} (misowned : Misowned size primary id error) :
    ¬ ∃ owner, SoleOwner size primary id owner := by
  rintro ⟨owner, sole⟩
  cases misowned with
  | unowned nobody => exact nobody owner sole.inGroup sole.owns
  | @contested ranks ascending claiming several =>
      have only : ∀ rank ∈ ranks, rank = owner.rank := by
        intro rank listed
        rcases (claiming rank).1 listed with ⟨other, inGroup, rfl, owns⟩
        rw [sole.only other inGroup owns]
      match ranks with
      | first :: second :: rest =>
          have less := (List.pairwise_cons.1 ascending).1 second List.mem_cons_self
          rw [only first (by simp), only second (by simp)] at less
          exact UInt64.lt_irrefl _ less

theorem resolved_resolutionOf (inGroup : seat.size = size)
    (owners : ∀ id ∈ request seat, ∃ owner, SoleOwner size primary id owner) :
    Resolved size primary request seat (resolutionOf size primary request seat) := by
  have remote : ∀ record, record ∈ (resolutionOf size primary request seat).remote ↔
      ∃ owner : Seat, owner.size = size ∧ ∃ id ∈ copiesOf primary request seat owner,
        recordAt primary owner id = record := fun _ => mem_ghostsOf
  constructor
  · rw [resolutionOf, List.forall₂_map_right_iff, List.forall₂_same]
    intro id owned rank
    rw [mem_sharersOf]
    constructor
    · rintro ⟨user, userInGroup, same, copied⟩
      rcases mem_copiesOf.1 copied with ⟨apart, requested, _⟩
      exact ⟨user, userInGroup, same, apart.symm, requested⟩
    · rintro ⟨user, userInGroup, same, apart, requested⟩
      exact ⟨user, userInGroup, same,
        mem_copiesOf.2 ⟨apart.symm, requested, SortedSet.mem_toList.1 owned⟩⟩
  · intro id requested foreign
    rcases owners id requested with ⟨owner, sole⟩
    have apart : owner ≠ seat := fun same => foreign (same ▸ sole.owns)
    refine ⟨recordAt primary owner id, ⟨?_, rfl⟩, ?_⟩
    · exact (remote _).2
        ⟨owner, sole.inGroup, id, mem_copiesOf.2 ⟨apart, requested, sole.owns⟩, rfl⟩
    · rintro _ ⟨member, same⟩
      rcases (remote _).1 member with ⟨other, otherInGroup, _, copied, rfl⟩
      cases same
      rw [sole.only other otherInGroup (mem_copiesOf.1 copied).2.2]
      rfl
  · intro record member
    rcases (remote record).1 member with ⟨owner, ownerInGroup, id, copied, rfl⟩
    rcases mem_copiesOf.1 copied with ⟨apart, requested, owned⟩
    rcases owners id requested with ⟨other, sole⟩
    have same := sole.only owner ownerInGroup owned
    subst same
    refine ⟨requested, ?_, owner, locates_recordAt sole⟩
    intro own
    exact apart (sole.only seat inGroup own).symm

theorem resolves_outcomeOf (inGroup : seat.size = size) :
    Resolves size primary request seat (outcomeOf size primary request seat) := by
  rw [outcomeOf]
  cases settled : (request seat).toList.mapM
      (settle seat.rank (primary seat) (answersTo size primary request seat).flatten) with
  | ok records =>
      have owners : ∀ id ∈ request seat, ∃ owner, SoleOwner size primary id owner := by
        intro id requested
        rcases mapM_succeeds_iff.1 ⟨records, settled⟩ id requested with ⟨result, done⟩
        exact soleOwner_of_settle inGroup requested done
      exact .resolved owners (resolved_resolutionOf inGroup owners)
  | error error =>
      rcases first_of_mapM_eq_error settled with ⟨front, id, back, split, before, refused⟩
      have requested : id ∈ request seat := SortedSet.mem_toList.1 (by simp [split])
      have misowned := misowned_of_settle inGroup requested refused
      refine .refused requested misowned.not_soleOwner misowned ?_
      intro smaller inside less
      rcases before smaller (SortedSet.mem_front split inside less) with ⟨result, done⟩
      exact soleOwner_of_settle inGroup inside done

/-- Under every schedule, every rank's request to all ranks comes to an end, as the request itself says
and whatever comes of the others'. -/
theorem resolve_exact (held : Held size request) :
    Ensures size (fun seat => resolve seat (primary seat) (request seat) tag)
      (Resolves size primary request) :=
  (settles_resolve held).ensures fun _ inGroup => resolves_outcomeOf inGroup

/-- Two of three ranks own the same id. -/
def overlappingPrimary (seat : Seat) : IdSet :=
  if seat.rank = 0 then .ofList [1, 2] else if seat.rank = 1 then .ofList [2, 3] else .ofList [4]

/-- The first rank requests the id that it shares with the second and another one, the second only ids
with one owner, the third two that nobody owns. -/
def mixedRequests (seat : Seat) : IdSet :=
  if seat.rank = 0 then .ofList [2, 3]
  else if seat.rank = 1 then .ofList [1, 3, 4] else .ofList [1, 5, 7]

/-- The first rank learns that two ranks claim its id, itself among them, the third that nobody owns
the smaller of its ids, and the second gets two records. -/
theorem resolve_exact_mixedRequests :
    let first : Seat := ⟨0, 3, by decide⟩
    let second : Seat := ⟨1, 3, by decide⟩
    let third : Seat := ⟨2, 3, by decide⟩
    Resolves 3 overlappingPrimary mixedRequests first (.error (.multiplyOwned 2 [0, 1])) ∧
      Resolves 3 overlappingPrimary mixedRequests second
        (.ok ⟨[.ofList [0], .ofList [0]], .ofList [⟨1, 0, 0, ∅⟩, ⟨4, 2, 0, ∅⟩]⟩) ∧
      Resolves 3 overlappingPrimary mixedRequests third (.error (.unownedEntity 5)) := by
  intro first second third
  have held : Held 3 mixedRequests := by
    have listed : ∀ user ∈ Seat.all 3, (mixedRequests user).size * 24 ≤ maxAllocationBytes := by
      decide +kernel
    intro user inGroup
    exact listed user (Seat.mem_all.2 inGroup)
  let call (seat : Seat) := (resolve seat (overlappingPrimary seat) (mixedRequests seat) 7).run
  have ends := (resolve_exact held (runFor 60 (ofCall 3 call)) (reaches_runFor 60 _)).2.2
  refine ⟨ends first rfl _ ?_, ends second rfl _ ?_, ends third rfl _ ?_⟩
  all_goals
    apply getElem?_values_eq_some_iff.1
    decide +kernel

end Ownership

end Subdomain

import Subdomain.Proofs.Halo.Ownership

/-!
# Refused requests for owners

Every rank comes to an end of its own with a request to all ranks, whatever comes of the others'.  One
that fails says truly of an id that it requested how many ranks claim it, and which.
-/

namespace Subdomain

open Exchange Subdomain.Group

namespace Ownership

variable {size : Rank} {tag : Tag} {primary request : Seat → IdSet} {seat : Seat} {id : EntityId}

/-- An error that says truly why an id has no single owner. -/
inductive Misowned (size : Rank) (primary : Seat → IdSet) (id : EntityId) : Error → Prop where
  | unowned (nobody : ∀ owner : Seat, owner.size = size → id ∉ primary owner) :
      Misowned size primary id (.unownedEntity id)
  /-- The claiming ranks are listed in ascending order. -/
  | contested {ranks : List Rank} (ascending : ranks.Pairwise (· < ·))
      (claiming : ∀ rank, rank ∈ ranks ↔
        ∃ owner : Seat, owner.size = size ∧ owner.rank = rank ∧ id ∈ primary owner)
      (several : 2 ≤ ranks.length) : Misowned size primary id (.multiplyOwned id ranks)

/-- What comes of a request to all ranks. -/
def outcomeOf (size : Rank) (primary request : Seat → IdSet) (seat : Seat) :
    Except Error Resolution :=
  ((request seat).toList.mapM
    (settle seat.rank (primary seat) (answersTo size primary request seat).flatten)).map fun _ =>
      resolutionOf size primary request seat

/-- What a rank makes of the requests and the answers that it hears. -/
def resolutionFrom (seat : Seat) (primary request : IdSet) (requests : List (List EntityId))
    (answers : List (List Location)) : Except Error Resolution :=
  (request.toList.mapM (settle seat.rank primary answers.flatten)).map fun records =>
    { users := primary.toList.map
        (requestersOf ((seat.ranks.zip requests).filter fun asked => asked.1 != seat.rank))
      remote := .ofList (records.filterMap fun record => record) }

theorem resolve_eq (seat : Seat) (primary request : IdSet) (tag : Tag) :
    resolve seat primary request tag =
      allGather seat request.toList tag >>= fun requests =>
      allToAll seat ((seat.ranks.zip requests).map fun asked =>
        if asked.1 = seat.rank then [] else asked.2.filterMap (locate? seat.rank primary)) (tag + 2) >>=
          fun answers =>
      Collective.ofExcept (resolutionFrom seat primary request requests answers) := by
  rw [resolve]
  apply bind_congr
  intro requests
  apply bind_congr
  intro answers
  rw [resolutionFrom]
  cases request.toList.mapM (settle seat.rank primary answers.flatten) <;> rfl

theorem resolutionFrom_answersTo (inGroup : seat.size = size) :
    resolutionFrom seat (primary seat) (request seat)
        ((Seat.all size).map fun user => (request user).toList)
        (answersTo size primary request seat) =
      outcomeOf size primary request seat := by
  rw [resolutionFrom, outcomeOf]
  cases settled : (request seat).toList.mapM
      (settle seat.rank (primary seat) (answersTo size primary request seat).flatten) with
  | error error => rfl
  | ok records => exact congrArg Except.ok (resolution_of_settled inGroup settled)

/-- Every rank comes to an end of its own with a request to all ranks. -/
theorem settles_resolve (held : Held size request) :
    Settles size (fun seat => (resolve seat (primary seat) (request seat) tag).run)
      (outcomeOf size primary request) := by
  have replied : ∀ seat : Seat, seat.size = size →
      Ready size ((Seat.all size).map (replyTo primary request seat)) := by
    intro owner _
    apply ready_map_all.2
    intro user inGroup
    exact held.fits_replyTo primary owner inGroup
  simp only [resolve_eq]
  apply (settles_allGather fun seat inGroup => held.fits_request inGroup).andThen
  apply Settles.andThen
  · apply (settles_allToAll replied).congr
    · intro seat inGroup
      rw [replies_eq inGroup]
    · intro seat inGroup
      rfl
  · apply (settles_done _).congr fun _ _ => rfl
    intro seat inGroup
    rw [received_replies inGroup, resolutionFrom_answersTo inGroup]

/-! ## What a refusal says -/

/-- All that claim an id, as a rank that requested it hears of them: the others and then itself. -/
def holders (size : Rank) (primary : Seat → IdSet) (seat : Seat) (id : EntityId) : List Seat :=
  claimants size primary seat id ++ if id ∈ primary seat then [seat] else []

theorem mem_holders (inGroup : seat.size = size) {owner : Seat} :
    owner ∈ holders size primary seat id ↔ owner.size = size ∧ id ∈ primary owner := by
  simp only [holders, claimants, List.mem_append, List.mem_filter, Seat.mem_all, Bool.and_eq_true,
    decide_eq_true_eq]
  by_cases same : owner = seat
  · subst same
    by_cases owned : id ∈ primary owner <;> simp [inGroup, owned]
  · by_cases owned : id ∈ primary seat <;> simp [same, owned]

theorem nodup_holders (size : Rank) (primary : Seat → IdSet) (seat : Seat) (id : EntityId) :
    (holders size primary seat id).Nodup := by
  apply List.nodup_append.2
  refine ⟨(Seat.nodup_all size).filter _, ?_, ?_⟩
  · split <;> simp
  · intro owner claims other own
    simp only [claimants, List.mem_filter, Bool.and_eq_true, decide_eq_true_eq] at claims
    split at own
    · exact List.mem_singleton.1 own ▸ claims.2.1
    · cases own

theorem nodup_map_rank_holders (inGroup : seat.size = size) :
    ((holders size primary seat id).map Seat.rank).Nodup := by
  apply List.Nodup.map_on _ (nodup_holders ..)
  intro first firstClaims second secondClaims same
  have firstInGroup := ((mem_holders inGroup).1 firstClaims).1
  have secondInGroup := ((mem_holders inGroup).1 secondClaims).1
  exact Seat.eq_of_rank (firstInGroup.trans secondInGroup.symm) same

/-- Ranks without repetition ascend strictly once they are sorted. -/
theorem ascending_sortOn {ranks : List Rank} (distinct : ranks.Nodup) :
    (sortOn (fun rank => rank) ranks).Pairwise (· < ·) := by
  have apart := (perm_sortOn (fun rank => rank) ranks).nodup_iff.2 distinct
  apply (List.Pairwise.and (pairwise_sortOn _ ranks) apart).imp
  intro first second order
  exact UInt64.lt_of_le_of_ne order.1 order.2

/-- A request for an id fails if nobody holds it or several do. -/
theorem settle_error_cases (inGroup : seat.size = size) (requested : id ∈ request seat)
    {error : Error}
    (failed : settle seat.rank (primary seat) (answersTo size primary request seat).flatten id =
      .error error) :
    (holders size primary seat id = [] ∧ error = .unownedEntity id) ∨
    (2 ≤ (holders size primary seat id).length ∧ error = .multiplyOwned id
      (sortOn (fun rank => rank) ((holders size primary seat id).map Seat.rank))) := by
  have owners : Location.owner ∘ (fun owner : Seat =>
      (⟨id, owner.rank, .ofNat ((primary owner).countBelow id)⟩ : Location)) = Seat.rank := rfl
  rw [settle, filter_answersTo inGroup requested] at failed
  rw [holders]
  by_cases owned : id ∈ primary seat
  · rw [if_pos owned]
    cases claims : claimants size primary seat id with
    | nil => simp [claims, owned] at failed
    | cons first rest =>
        right
        constructor
        · simp
        · simpa [claims, owned, owners] using failed.symm
  · rw [if_neg owned, List.append_nil]
    cases claims : claimants size primary seat id with
    | nil =>
        left
        constructor
        · rfl
        · simpa [claims, owned] using failed.symm
    | cons first rest =>
        cases rest with
        | nil => simp [claims, owned] at failed
        | cons second rest =>
            right
            constructor
            · simp
            · simpa [claims, owned, owners] using failed.symm

theorem partitionFault_of_settle {rank : Rank} {primary : IdSet} {error : Error}
    {answers : List Location} {id : EntityId}
    (failed : settle rank primary answers id = .error error) : error.isPartitionFault = true := by
  rw [settle] at failed
  split at failed <;> cases failed <;> rfl

theorem partitionFault_of_resolutionFrom {primary request : IdSet} {error : Error}
    {requests : List (List EntityId)} {answers : List (List Location)}
    (failed : resolutionFrom seat primary request requests answers = .error error) :
    error.isPartitionFault = true := by
  rw [resolutionFrom] at failed
  cases settled : request.toList.mapM (settle seat.rank primary answers.flatten) with
  | ok records =>
      rw [settled] at failed
      cases failed
  | error other =>
      rw [settled] at failed
      cases failed
      rcases exists_of_mapM_eq_error settled with ⟨_, _, failed⟩
      exact partitionFault_of_settle failed

/-- The error of a request for an id is a true one. -/
theorem misowned_of_settle (inGroup : seat.size = size) (requested : id ∈ request seat)
    {error : Error}
    (failed : settle seat.rank (primary seat) (answersTo size primary request seat).flatten id =
      .error error) : Misowned size primary id error := by
  rcases settle_error_cases inGroup requested failed with ⟨none, rfl⟩ | ⟨several, rfl⟩
  · apply Misowned.unowned
    intro owner ownerInGroup owned
    have claims := (mem_holders inGroup).2 ⟨ownerInGroup, owned⟩
    rw [none] at claims
    cases claims
  · have sorted := perm_sortOn (fun rank => rank) ((holders size primary seat id).map Seat.rank)
    apply Misowned.contested
    · exact ascending_sortOn (nodup_map_rank_holders inGroup)
    · intro rank
      rw [sorted.mem_iff, List.mem_map]
      constructor
      · rintro ⟨owner, claims, same⟩
        rcases (mem_holders inGroup).1 claims with ⟨ownerInGroup, owned⟩
        exact ⟨owner, ownerInGroup, same, owned⟩
      · rintro ⟨owner, ownerInGroup, same, owned⟩
        exact ⟨owner, (mem_holders inGroup).2 ⟨ownerInGroup, owned⟩, same⟩
    · rw [sorted.length_eq, List.length_map]
      exact several

/-- A rank has found one owner of everything that it requested, or it names an id of it with the truth
about that. -/
theorem outcomeOf_truthful (inGroup : seat.size = size) :
    (outcomeOf size primary request seat = .ok (resolutionOf size primary request seat) ∧
      ∀ id ∈ request seat, ∃ owner, SoleOwner size primary id owner) ∨
    ∃ error, outcomeOf size primary request seat = .error error ∧
      ∃ id ∈ request seat, Misowned size primary id error := by
  rw [outcomeOf]
  cases settled : (request seat).toList.mapM
      (settle seat.rank (primary seat) (answersTo size primary request seat).flatten) with
  | ok records =>
      left
      constructor
      · rfl
      · intro id requested
        rcases mapM_succeeds_iff.1 ⟨records, settled⟩ id requested with ⟨result, done⟩
        exact soleOwner_of_settle inGroup requested done
  | error error =>
      right
      rcases exists_of_mapM_eq_error settled with ⟨id, requested, refused⟩
      exact ⟨error, rfl, id, requested, misowned_of_settle inGroup requested refused⟩

/-- Either all ranks get what they request, or one of them says why not. -/
theorem outcomeOf_cases (size : Rank) (primary request : Seat → IdSet) :
    (∀ seat : Seat, seat.size = size →
      outcomeOf size primary request seat = .ok (resolutionOf size primary request seat) ∧
      ∀ id ∈ request seat, ∃ owner, SoleOwner size primary id owner) ∨
    ∃ seat : Seat, seat.size = size ∧ ∃ error,
      outcomeOf size primary request seat = .error error ∧
      ∃ id ∈ request seat, Misowned size primary id error := by
  by_cases refused : ∃ seat : Seat, seat.size = size ∧ ∃ error,
      outcomeOf size primary request seat = .error error ∧
      ∃ id ∈ request seat, Misowned size primary id error
  · exact .inr refused
  · left
    intro seat inGroup
    cases outcomeOf_truthful inGroup with
    | inl found => exact found
    | inr failed => exact absurd ⟨seat, inGroup, failed⟩ refused

end Ownership

end Subdomain

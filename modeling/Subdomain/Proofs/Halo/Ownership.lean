import Subdomain.Halo.Ownership
import Subdomain.Proofs.Halo.Gather

/-!
# Requests for owners

What a rank copies from another is said by a function from the two to a set of ids.  A request to all
ranks succeeds exactly when each id has a single owner; then every rank gets records of what it
requested and does not own, and the owner of an id learns exactly who requested it.  A request to the
believed owner succeeds exactly when the owner has the id.
-/

namespace Subdomain

open Exchange Subdomain.Group

namespace Ownership

variable {β : Type} {patience : Patience} {size : Rank} {tag : Tag} {values : Seat → β}
  {primary request : Seat → IdSet} {seat owner : Seat} {id : EntityId}

/-- The record that others have of an entity. -/
def recordAt (primary : Seat → IdSet) (owner : Seat) (id : EntityId) : EntityRecord :=
  ⟨id, owner.rank, .ofNat ((primary owner).countBelow id), ∅⟩

/-- The ranks of a group that copy an entity from its owner. -/
def sharersOf (size : Rank) (copies : Seat → Seat → IdSet) (owner : Seat) (id : EntityId) :
    RankSet :=
  .ofList (((Seat.all size).filter fun user => decide (id ∈ copies user owner)).map Seat.rank)

/-- The records of all that a rank copies. -/
def ghostsOf (size : Rank) (primary : Seat → IdSet) (copies : Seat → Seat → IdSet) (seat : Seat) :
    RecordSet :=
  .ofList ((Seat.all size).flatMap fun owner =>
    (copies seat owner).toList.map (recordAt primary owner))

theorem mem_sharersOf {copies : Seat → Seat → IdSet} {rank : Rank} :
    rank ∈ sharersOf size copies owner id ↔
      ∃ user : Seat, user.size = size ∧ user.rank = rank ∧ id ∈ copies user owner := by
  simp only [sharersOf, SortedSet.mem_ofList, List.mem_map, List.mem_filter, Seat.mem_all,
    decide_eq_true_eq]
  constructor
  · rintro ⟨user, ⟨inGroup, copied⟩, same⟩
    exact ⟨user, inGroup, same, copied⟩
  · rintro ⟨user, inGroup, same, copied⟩
    exact ⟨user, ⟨inGroup, copied⟩, same⟩

theorem sharersOf_congr {copies otherCopies : Seat → Seat → IdSet}
    (same : ∀ user owner : Seat, user.size = size → owner.size = size →
      copies user owner = otherCopies user owner) (inGroup : owner.size = size) (id : EntityId) :
    sharersOf size copies owner id = sharersOf size otherCopies owner id := by
  ext rank
  rw [mem_sharersOf, mem_sharersOf]
  apply exists_congr
  intro user
  apply and_congr_right
  intro userInGroup
  rw [same user owner userInGroup inGroup]

theorem mem_ghostsOf {copies : Seat → Seat → IdSet} {record : EntityRecord} :
    record ∈ ghostsOf size primary copies seat ↔
      ∃ owner : Seat, owner.size = size ∧ ∃ id ∈ copies seat owner,
        recordAt primary owner id = record := by
  simp only [ghostsOf, SortedSet.mem_ofList, List.mem_flatMap, Seat.mem_all, List.mem_map,
    SortedSet.mem_toList]

theorem locate?_eq (rank : Rank) (primary : IdSet) (id : EntityId) :
    locate? rank primary id =
      if id ∈ primary then some ⟨id, rank, .ofNat (primary.countBelow id)⟩ else none := by
  rw [locate?, SortedSet.idxOf?_toList]
  split <;> rfl

theorem mem_requestersOf {requests : List (Rank × List EntityId)} {rank : Rank} :
    rank ∈ requestersOf requests id ↔ ∃ ids, (rank, ids) ∈ requests ∧ id ∈ ids := by
  simp only [requestersOf, SortedSet.mem_ofList, List.mem_map, List.mem_filter,
    List.contains_iff_mem]
  constructor
  · rintro ⟨⟨_, ids⟩, ⟨request, member⟩, rfl⟩
    exact ⟨ids, request, member⟩
  · rintro ⟨ids, request, member⟩
    exact ⟨(rank, ids), ⟨request, member⟩, rfl⟩

/-! ## Requests to all ranks -/

/-- One rank of a group owns an entity and no other does. -/
structure SoleOwner (size : Rank) (primary : Seat → IdSet) (id : EntityId) (owner : Seat) :
    Prop where
  inGroup : owner.size = size
  owns : id ∈ primary owner
  only : ∀ other : Seat, other.size = size → id ∈ primary other → other = owner

/-- The locations that a rank gives another for what the other requested. -/
def replyTo (primary request : Seat → IdSet) (owner user : Seat) : List Location :=
  if user.rank = owner.rank then []
  else (request user).toList.filterMap (locate? owner.rank (primary owner))

/-- The locations that a rank gets from the others. -/
def answersTo (size : Rank) (primary request : Seat → IdSet) (seat : Seat) : List (List Location) :=
  (Seat.all size).map fun owner => replyTo primary request owner seat

/-- The ranks besides the requesting one that claim an id. -/
def claimants (size : Rank) (primary : Seat → IdSet) (seat : Seat) (id : EntityId) : List Seat :=
  (Seat.all size).filter fun owner => decide (owner ≠ seat) && decide (id ∈ primary owner)

theorem filterMap_only {α γ : Type} [DecidableEq α] {members : List α} (distinct : members.Nodup)
    {member : α} (inside : member ∈ members) (result : Option γ) :
    members.filterMap (fun other => if other = member then result else none) = result.toList := by
  induction members with
  | nil => cases inside
  | cons head rest ih =>
      rcases List.nodup_cons.1 distinct with ⟨apart, distinct⟩
      by_cases same : head = member
      · subst same
        have others : rest.filterMap (fun other => if other = head then result else none) = [] := by
          apply List.filterMap_eq_nil_iff.2
          intro other later
          apply if_neg
          intro equal
          exact apart (equal ▸ later)
        cases result <;> simp [others]
      · have later : member ∈ rest := (List.mem_cons.1 inside).resolve_left (Ne.symm same)
        rw [List.filterMap_cons, if_neg same]
        exact ih distinct later

theorem filter_answer (requested : id ∈ request seat) :
    ((request seat).toList.filterMap (locate? owner.rank (primary owner))).filter (·.id == id) =
      (locate? owner.rank (primary owner) id).toList := by
  rw [List.filter_filterMap, ← filterMap_only (request seat).nodup_toList requested]
  apply List.filterMap_congr
  intro other _
  rw [locate?_eq]
  by_cases same : other = id
  · subst same
    by_cases owned : other ∈ primary owner <;> simp [locate?_eq, owned]
  · by_cases owned : other ∈ primary owner <;> simp [owned, same]

/-- Only the claims on an id count when it is settled who owns it. -/
theorem filter_answersTo (inGroup : seat.size = size) (requested : id ∈ request seat) :
    (answersTo size primary request seat).flatten.filter (·.id == id) =
      (claimants size primary seat id).map fun owner =>
        ⟨id, owner.rank, .ofNat ((primary owner).countBelow id)⟩ := by
  rw [List.filter_flatten, answersTo, List.map_map, ← List.flatMap_def, claimants,
    ← List.filterMap_eq_map, List.filterMap_filter, List.filterMap_eq_flatMap_toList]
  apply List.flatMap_congr
  intro other member
  have sameSize := inGroup.trans (Seat.mem_all.1 member).symm
  simp only [Function.comp, replyTo, Seat.rank_inj sameSize]
  by_cases same : seat = other
  · simp [same]
  · rw [if_neg same, filter_answer requested, locate?_eq]
    by_cases owned : id ∈ primary other <;> simp [owned, Ne.symm same]

theorem claimants_of_soleOwner (sole : SoleOwner size primary id owner) :
    claimants size primary seat id = if owner = seat then [] else [owner] := by
  have claims : claimants size primary seat id =
      (Seat.all size).filter fun other => other == owner && decide (owner ≠ seat) := by
    apply List.filter_congr
    intro other member
    by_cases same : other = owner
    · simp [same, sole.owns]
    · have unowned : id ∉ primary other :=
        fun owns => same (sole.only other (Seat.mem_all.1 member) owns)
      simp [same, unowned]
  rw [claims]
  by_cases own : owner = seat
  · simp [own]
  · have once : (Seat.all size).count owner = 1 :=
      List.count_eq_one_of_mem (Seat.nodup_all size) (Seat.mem_all.2 sole.inGroup)
    simp [own, List.filter_beq, once]

theorem settle_of_soleOwner (inGroup : seat.size = size) (requested : id ∈ request seat)
    (sole : SoleOwner size primary id owner) :
    settle seat.rank (primary seat) (answersTo size primary request seat).flatten id =
      .ok (if owner = seat then none else some (recordAt primary owner id)) := by
  rw [settle, filter_answersTo inGroup requested, claimants_of_soleOwner sole]
  by_cases own : owner = seat
  · subst own
    simp [sole.owns]
  · have foreign : id ∉ primary seat := fun owns => own (sole.only seat inGroup owns).symm
    simp [own, foreign]
    rfl

theorem soleOwner_of_settle (inGroup : seat.size = size) (requested : id ∈ request seat)
    {result : Option EntityRecord}
    (settled : settle seat.rank (primary seat) (answersTo size primary request seat).flatten id =
      .ok result) : ∃ owner, SoleOwner size primary id owner := by
  rw [settle, filter_answersTo inGroup requested] at settled
  have listed : ∀ other : Seat, other.size = size → id ∈ primary other → other ≠ seat →
      other ∈ claimants size primary seat id := by
    intro other inGroup owns apart
    simp [claimants, Seat.mem_all, inGroup, owns, apart]
  have genuine : ∀ other ∈ claimants size primary seat id,
      other.size = size ∧ other ≠ seat ∧ id ∈ primary other := by
    intro other member
    simpa [claimants, Seat.mem_all] using member
  cases claims : claimants size primary seat id with
  | nil =>
      by_cases owned : id ∈ primary seat
      · exists seat
        constructor
        · exact inGroup
        · exact owned
        · intro other otherInGroup owns
          apply Classical.byContradiction
          intro apart
          have claim := listed other otherInGroup owns apart
          rw [claims] at claim
          cases claim
      · simp [claims, owned] at settled
  | cons first rest =>
      cases rest with
      | nil =>
          by_cases owned : id ∈ primary seat
          · simp [claims, owned] at settled
          · rcases genuine first (claims ▸ List.mem_singleton_self first) with ⟨firstInGroup, _, owns⟩
            exists first
            constructor
            · exact firstInGroup
            · exact owns
            · intro other otherInGroup owns
              have apart : other ≠ seat := fun same => owned (same ▸ owns)
              have claim := listed other otherInGroup owns apart
              rw [claims] at claim
              exact List.mem_singleton.1 claim
      | cons second rest => simp [claims] at settled

/-- What a rank copies from another if it gets what it requests: whatever the other owns of it. -/
def copiesOf (primary request : Seat → IdSet) (user owner : Seat) : IdSet :=
  if owner = user then ∅ else request user ∩ primary owner

theorem mem_copiesOf {user : Seat} :
    id ∈ copiesOf primary request user owner ↔
      owner ≠ user ∧ id ∈ request user ∧ id ∈ primary owner := by
  rw [copiesOf]
  by_cases same : owner = user <;> simp [same]

/-- Requests to all ranks that can be answered: memory holds the requests and the answers to each, and
every requested id has one owner. -/
structure Resolvable (size : Rank) (primary request : Seat → IdSet) : Prop where
  requests : ∀ user : Seat, user.size = size → fits (request user).toList = true
  replies : ∀ owner user : Seat, owner.size = size → user.size = size →
    fits (replyTo primary request owner user) = true
  owners : ∀ user : Seat, user.size = size → ∀ id ∈ request user,
    ∃ owner, SoleOwner size primary id owner

/-- What a rank copies has no other owner than the one that it is copied from. -/
theorem Resolvable.soleOwner (resolvable : Resolvable size primary request) {user : Seat}
    (userInGroup : user.size = size) (ownerInGroup : owner.size = size)
    (copied : id ∈ copiesOf primary request user owner) : SoleOwner size primary id owner := by
  rcases mem_copiesOf.1 copied with ⟨_, requested, owned⟩
  rcases resolvable.owners user userInGroup id requested with ⟨other, sole⟩
  exact sole.only owner ownerInGroup owned ▸ sole

/-- Memory holds the location of everything that is requested, at 24 bytes each. -/
def Held (size : Rank) (request : Seat → IdSet) : Prop :=
  ∀ user : Seat, user.size = size → (request user).size * 24 ≤ maxAllocationBytes

theorem Held.mono {smaller : Seat → IdSet} (held : Held size request)
    (within : ∀ user, ∀ id ∈ smaller user, id ∈ request user) : Held size smaller := by
  intro user inGroup
  have shorter : (smaller user).size ≤ (request user).size := SortedSet.size_le_size (within user)
  exact Nat.le_trans (Nat.mul_le_mul_right 24 shorter) (held user inGroup)

theorem Held.fits_request (held : Held size request) (inGroup : seat.size = size) :
    fits (request seat).toList = true :=
  fits_of_length_le (Nat.le_refl _) (by decide) (held seat inGroup) (by decide)

theorem Held.fits_replyTo (held : Held size request) (primary : Seat → IdSet) (owner : Seat)
    (inGroup : seat.size = size) : fits (replyTo primary request owner seat) = true := by
  rw [replyTo]
  split
  · exact fits_nil
  · exact fits_of_length_le (List.length_filterMap_le _ _) (by decide) (held seat inGroup)
      (by decide)

theorem Held.resolvable (held : Held size request)
    (owners : ∀ user : Seat, user.size = size → ∀ id ∈ request user,
      ∃ owner, SoleOwner size primary id owner) : Resolvable size primary request where
  requests _ inGroup := held.fits_request inGroup
  replies owner _ _ inGroup := held.fits_replyTo primary owner inGroup
  owners := owners

/-- What a rank learns from its requests and those of the others. -/
def resolutionOf (size : Rank) (primary request : Seat → IdSet) (seat : Seat) : Resolution where
  users := (primary seat).toList.map (sharersOf size (copiesOf primary request) seat)
  remote := ghostsOf size primary (copiesOf primary request) seat

theorem requestersOf_foreign (inGroup : seat.size = size) (owned : id ∈ primary seat) :
    requestersOf ((seat.ranks.zip ((Seat.all size).map fun user => (request user).toList)).filter
      fun asked => asked.1 != seat.rank) id = sharersOf size (copiesOf primary request) seat id := by
  ext rank
  rw [mem_requestersOf, mem_sharersOf, Seat.zip_ranks inGroup fun user => (request user).toList]
  simp only [List.mem_filter, List.mem_map, Seat.mem_all, Prod.mk.injEq, bne_iff_ne]
  constructor
  · rintro ⟨_, ⟨⟨user, userInGroup, rfl, rfl⟩, apart⟩, requested⟩
    have different : seat ≠ user := fun same => apart (same ▸ rfl)
    exact ⟨user, userInGroup, rfl,
      mem_copiesOf.2 ⟨different, SortedSet.mem_toList.1 requested, owned⟩⟩
  · rintro ⟨user, userInGroup, rfl, copied⟩
    rcases mem_copiesOf.1 copied with ⟨different, requested, _⟩
    have apart : user.rank ≠ seat.rank := fun same =>
      different (Seat.eq_of_rank (inGroup.trans userInGroup.symm) same.symm)
    exact ⟨_, ⟨⟨user, userInGroup, rfl, rfl⟩, apart⟩, requested⟩

theorem remote_of_settled (inGroup : seat.size = size) {records : List (Option EntityRecord)}
    (settled : (request seat).toList.mapM
      (settle seat.rank (primary seat) (answersTo size primary request seat).flatten) = .ok records) :
    SortedSet.ofList (records.filterMap fun record => record) =
      ghostsOf size primary (copiesOf primary request) seat := by
  ext record
  rw [SortedSet.mem_ofList, List.mem_filterMap, mem_ghostsOf]
  constructor
  · rintro ⟨result, member, found⟩
    rcases (mem_of_mapM_eq_ok settled).1 member with ⟨id, requested, result⟩
    rcases soleOwner_of_settle inGroup requested result with ⟨owner, sole⟩
    rw [settle_of_soleOwner inGroup requested sole] at result
    cases result
    split at found
    · cases found
    · next apart =>
      cases found
      have copied := mem_copiesOf.2 ⟨apart, requested, sole.owns⟩
      exact ⟨owner, sole.inGroup, id, copied, rfl⟩
  · rintro ⟨owner, ownerInGroup, id, copied, rfl⟩
    rcases mem_copiesOf.1 copied with ⟨apart, requested, owned⟩
    have sole : SoleOwner size primary id owner := by
      rcases mapM_succeeds_iff.1 ⟨records, settled⟩ id requested with ⟨result, done⟩
      rcases soleOwner_of_settle inGroup requested done with ⟨other, sole⟩
      exact sole.only owner ownerInGroup owned ▸ sole
    have result := settle_of_soleOwner inGroup requested sole
    rw [if_neg apart] at result
    exact ⟨_, (mem_of_mapM_eq_ok settled).2 ⟨id, requested, result⟩, rfl⟩

/-- What a rank gives the others for what they have requested. -/
theorem replies_eq (inGroup : seat.size = size) (primary request : Seat → IdSet) :
    (seat.ranks.zip ((Seat.all size).map fun user => (request user).toList)).map (fun asked =>
      if asked.1 = seat.rank then []
      else asked.2.filterMap (locate? seat.rank (primary seat))) =
    (Seat.all size).map (replyTo primary request seat) := by
  rw [Seat.zip_ranks inGroup fun user => (request user).toList, List.map_map]
  rfl

theorem received_replies (inGroup : seat.size = size) (primary request : Seat → IdSet) :
    received size (fun owner => (Seat.all size).map (replyTo primary request owner)) seat =
      answersTo size primary request seat :=
  received_map_all inGroup (replyTo primary request)

/-- What a rank learns once it is settled who owns what it requested. -/
theorem resolution_of_settled (inGroup : seat.size = size) {records : List (Option EntityRecord)}
    (settled : (request seat).toList.mapM
      (settle seat.rank (primary seat) (answersTo size primary request seat).flatten) = .ok records) :
    ({ users := (primary seat).toList.map (requestersOf ((seat.ranks.zip
         ((Seat.all size).map fun user => (request user).toList)).filter
           fun asked => asked.1 != seat.rank))
       remote := .ofList (records.filterMap fun record => record) } : Resolution) =
      resolutionOf size primary request seat := by
  rw [resolutionOf, ← remote_of_settled inGroup settled]
  congr 1
  apply List.map_congr_left
  intro id owned
  exact requestersOf_foreign inGroup owned

/-- A request to all ranks comes to an end on every rank exactly when it can be answered. -/
theorem completes_resolve_iff {next : Seat → Resolution → Collective β} :
    Completes patience size
        (fun seat => resolve seat (primary seat) (request seat) tag >>= next seat) values ↔
      Resolvable size primary request ∧
        Completes patience size (fun seat => next seat (resolutionOf size primary request seat))
          values := by
  simp only [resolve, bind_assoc, pure_bind]
  apply Iff.trans completes_allGather_iff
  apply Iff.trans (and_congr_right fun _ => completes_congr fun seat inGroup => by
    rw [replies_eq inGroup])
  rw [completes_allToAll_iff]
  apply Iff.trans (and_congr_right fun _ => and_congr_right fun _ => completes_congr
    fun seat inGroup => by rw [received_replies inGroup])
  rw [completes_checked_iff]
  · constructor
    · rintro ⟨requests, replies, settled, completes⟩
      refine ⟨⟨requests, ?_, ?_⟩, completes⟩
      · intro owner user ownerInGroup userInGroup
        exact ready_map_all.1 (replies owner ownerInGroup) user userInGroup
      · intro user inGroup id requested
        rcases mapM_succeeds_iff.1 (settled user inGroup) id requested with ⟨result, done⟩
        exact soleOwner_of_settle inGroup requested done
    · rintro ⟨resolvable, completes⟩
      refine ⟨resolvable.requests, ?_, ?_, completes⟩
      · intro owner ownerInGroup
        apply ready_map_all.2
        intro user userInGroup
        exact resolvable.replies owner user ownerInGroup userInGroup
      · intro user inGroup
        apply mapM_succeeds_iff.2
        intro id requested
        rcases resolvable.owners user inGroup id requested with ⟨owner, sole⟩
        exact ⟨_, settle_of_soleOwner inGroup requested sole⟩
  · intro seat inGroup records settled
    congr 1
    exact resolution_of_settled inGroup settled

/-! ## Requests to the believed owners -/

variable {copies : Seat → Seat → IdSet}

/-- The offsets that a rank gives another for what the other requested. -/
def offsetReply (primary : Seat → IdSet) (copies : Seat → Seat → IdSet) (owner user : Seat) :
    List Location :=
  (copies user owner).toList.filterMap fun id =>
    ((primary owner).numbering.get? id).map fun offset => ⟨id, owner.rank, offset⟩

/-- Requests to believed owners that can be answered: memory holds the requests and the answers to
each, and every requested id is owned where it is requested. -/
structure Answerable (size : Rank) (primary : Seat → IdSet) (copies : Seat → Seat → IdSet) :
    Prop where
  requests : ∀ user owner : Seat, user.size = size → owner.size = size →
    fits (copies user owner).toList = true
  replies : ∀ owner user : Seat, owner.size = size → user.size = size →
    fits (offsetReply primary copies owner user) = true
  owned : ∀ owner user : Seat, owner.size = size → user.size = size →
    ∀ id ∈ copies user owner, id ∈ primary owner

/-- What a rank learns from its requests and those of the others. -/
def offsetAnswerOf (size : Rank) (primary : Seat → IdSet) (copies : Seat → Seat → IdSet)
    (seat : Seat) : OffsetAnswer where
  offsets := (Seat.all size).map fun owner =>
    (copies seat owner).toList.map fun id => .ofNat ((primary owner).countBelow id)
  requesters := .ofKeys (primary seat) fun id =>
    let ranks := sharersOf size copies seat id
    if ranks.isEmpty then none else some ranks

theorem offsetReply_of_owned (owned : ∀ id ∈ copies seat owner, id ∈ primary owner) :
    offsetReply primary copies owner seat = (copies seat owner).toList.map fun id =>
      ⟨id, owner.rank, .ofNat ((primary owner).countBelow id)⟩ := by
  rw [offsetReply, ← List.filterMap_eq_map]
  apply List.filterMap_congr
  intro id requested
  rw [SortedSet.get?_numbering, if_pos (owned id requested)]
  rfl

theorem readOffsets_map (rank : Rank) (offset : EntityId → UInt64) (ids : List EntityId) :
    readOffsets ids (ids.map fun id => ⟨id, rank, offset id⟩) = .ok (ids.map offset) := by
  induction ids with
  | nil => rfl
  | cons head rest ih => simp [readOffsets, ih, Except.map]

theorem stray?_eq_none_iff {owned : SortedMap EntityId UInt64}
    {requests : List (Rank × List EntityId)} :
    stray? owned requests = none ↔
      ∀ asked ∈ requests, ∀ id ∈ asked.2, (owned.get? id).isSome = true := by
  simp [stray?, Option.isSome_iff_ne_none]

/-- The check of the requests that a rank gets. -/
def refuseStray (owned : SortedMap EntityId UInt64) (requests : List (Rank × List EntityId)) :
    Except Error Unit :=
  match stray? owned requests with
  | some (rank, id) => .error (.unexpectedRequest id rank)
  | none => .ok ()

theorem refuseStray_succeeds_iff {owned : SortedMap EntityId UInt64}
    {requests : List (Rank × List EntityId)} :
    (∃ value, refuseStray owned requests = .ok value) ↔
      ∀ asked ∈ requests, ∀ id ∈ asked.2, (owned.get? id).isSome = true := by
  rw [← stray?_eq_none_iff, refuseStray]
  cases stray? owned requests <;> simp

theorem offsets_eq (seat : Seat) (owned : SortedMap EntityId UInt64) {requests : List IdSet}
    (count : requests.length = seat.size.toNat) (tag : Tag) :
    offsets seat owned requests tag =
      allToAll seat (requests.map SortedSet.toList) tag >>= fun incoming =>
      allToAll seat (incoming.map fun ids => ids.filterMap fun id =>
        (owned.get? id).map fun offset => (⟨id, seat.rank, offset⟩ : Location)) (tag + 2) >>=
          fun answers =>
      Collective.ofExcept (refuseStray owned (seat.ranks.zip incoming)) >>= fun _ =>
      Collective.ofExcept ((requests.zip answers).mapM fun asked =>
        readOffsets asked.1.toList asked.2) >>= fun offsets =>
      pure ⟨offsets, .ofKeys owned.keys fun id =>
        let ranks := requestersOf (seat.ranks.zip incoming) id
        if ranks.isEmpty then none else some ranks⟩ := by
  rw [offsets, if_neg (not_not_intro count)]
  apply bind_congr
  intro incoming
  apply bind_congr
  intro answers
  dsimp only [refuseStray]
  cases stray? owned (seat.ranks.zip incoming) <;> rfl

theorem requestersOf_received (inGroup : seat.size = size) :
    requestersOf (seat.ranks.zip ((Seat.all size).map fun user => (copies user seat).toList)) id =
      sharersOf size copies seat id := by
  ext rank
  rw [mem_requestersOf, mem_sharersOf, Seat.zip_ranks inGroup fun user => (copies user seat).toList]
  simp only [List.mem_map, Seat.mem_all, Prod.mk.injEq]
  constructor
  · rintro ⟨_, ⟨user, userInGroup, rfl, rfl⟩, requested⟩
    exact ⟨user, userInGroup, rfl, requested⟩
  · rintro ⟨user, userInGroup, rfl, requested⟩
    exact ⟨_, ⟨user, userInGroup, rfl, rfl⟩, requested⟩

/-- No request goes astray when every rank owns what is requested from it. -/
theorem refuseStray_received_iff (inGroup : owner.size = size) :
    (∃ value, refuseStray (primary owner).numbering
      (owner.ranks.zip ((Seat.all size).map fun user => (copies user owner).toList)) = .ok value) ↔
      ∀ user : Seat, user.size = size → ∀ id ∈ copies user owner, id ∈ primary owner := by
  rw [refuseStray_succeeds_iff, Seat.zip_ranks inGroup fun user => (copies user owner).toList]
  simp [SortedSet.get?_numbering, Seat.mem_all, SortedSet.mem_toList]

/-- Once no request has gone astray, the offsets can be read off the answers. -/
theorem readOffsets_answers (inGroup : seat.size = size)
    (owned : ∀ owner : Seat, owner.size = size → ∀ user : Seat, user.size = size →
      ∀ id ∈ copies user owner, id ∈ primary owner) :
    ((Seat.all size).map fun owner =>
      (copies seat owner, offsetReply primary copies owner seat)).mapM (fun asked =>
        readOffsets asked.1.toList asked.2) =
      .ok (offsetAnswerOf size primary copies seat).offsets := by
  rw [List.mapM_map, offsetAnswerOf]
  apply mapM_eq_ok_map
  intro owner member
  have known := owned owner (Seat.mem_all.1 member) seat inGroup
  rw [Function.comp, offsetReply_of_owned known, readOffsets_map]

/-- A request to the believed owners comes to an end on every rank exactly when it can be answered. -/
theorem completes_offsets_iff {next : Seat → OffsetAnswer → Collective β} :
    Completes patience size
        (fun seat => offsets seat (primary seat).numbering ((Seat.all size).map (copies seat)) tag >>=
          next seat) values ↔
      Answerable size primary copies ∧
        Completes patience size (fun seat => next seat (offsetAnswerOf size primary copies seat))
          values := by
  have counted : ∀ seat : Seat, seat.size = size →
      ((Seat.all size).map (copies seat)).length = seat.size.toNat := by
    intro seat inGroup
    rw [List.length_map, Seat.length_all, inGroup]
  have arrived : ∀ seat : Seat, seat.size = size →
      received size (fun user => (Seat.all size).map (SortedSet.toList ∘ copies user)) seat =
        (Seat.all size).map fun user => (copies user seat).toList :=
    fun seat inGroup => received_map_all inGroup fun user owner => (copies user owner).toList
  have answered : ∀ seat : Seat, seat.size = size →
      received size (fun owner => (Seat.all size).map (offsetReply primary copies owner)) seat =
        (Seat.all size).map fun owner => offsetReply primary copies owner seat :=
    fun seat inGroup => received_map_all inGroup (offsetReply primary copies)
  have stray : (∀ seat : Seat, seat.size = size → ∃ value, refuseStray (primary seat).numbering
      (seat.ranks.zip ((Seat.all size).map fun user => (copies user seat).toList)) = .ok value) ↔
      ∀ owner : Seat, owner.size = size → ∀ user : Seat, user.size = size →
        ∀ id ∈ copies user owner, id ∈ primary owner :=
    forall_congr' fun owner => forall_congr' fun inGroup => refuseStray_received_iff inGroup
  apply Iff.trans (completes_congr fun seat inGroup => by
    rw [offsets_eq seat _ (counted seat inGroup), List.map_map])
  simp only [bind_assoc, pure_bind]
  rw [completes_allToAll_iff]
  apply Iff.trans (and_congr_right fun _ => completes_congr fun seat inGroup => by
    rw [arrived seat inGroup, List.map_map])
  have replied : ∀ seat : Seat, (Seat.all size).map ((fun ids : List EntityId => ids.filterMap
      fun id => ((primary seat).numbering.get? id).map fun offset =>
        (⟨id, seat.rank, offset⟩ : Location)) ∘ fun user => (copies user seat).toList) =
      (Seat.all size).map (offsetReply primary copies seat) := fun _ => rfl
  simp only [replied]
  rw [completes_allToAll_iff]
  apply Iff.trans (and_congr_right fun _ => and_congr_right fun _ => completes_congr
    fun seat inGroup => by rw [answered seat inGroup, List.zip_map'])
  rw [completes_required_iff, stray]
  apply Iff.trans (and_congr_right fun _ => and_congr_right fun _ => and_congr_right fun owned =>
    completes_checked_iff fun seat inGroup value done => by
      rw [readOffsets_answers inGroup owned] at done
      cases done
      simp only [requestersOf_received inGroup, SortedSet.keys_numbering]
      rfl)
  constructor
  · rintro ⟨requests, replies, owned, _, completes⟩
    refine ⟨⟨?_, ?_, ?_⟩, completes⟩
    · intro user owner userInGroup ownerInGroup
      exact ready_map_all.1 (requests user userInGroup) owner ownerInGroup
    · intro owner user ownerInGroup userInGroup
      exact ready_map_all.1 (replies owner ownerInGroup) user userInGroup
    · intro owner user ownerInGroup userInGroup
      exact owned owner ownerInGroup user userInGroup
  · rintro ⟨answerable, completes⟩
    have owned : ∀ owner : Seat, owner.size = size → ∀ user : Seat, user.size = size →
        ∀ id ∈ copies user owner, id ∈ primary owner := fun owner ownerInGroup user userInGroup =>
      answerable.owned owner user ownerInGroup userInGroup
    refine ⟨?_, ?_, owned, ?_, completes⟩
    · intro user userInGroup
      apply ready_map_all.2
      intro owner ownerInGroup
      exact answerable.requests user owner userInGroup ownerInGroup
    · intro owner ownerInGroup
      apply ready_map_all.2
      intro user userInGroup
      exact answerable.replies owner user ownerInGroup userInGroup
    · intro seat inGroup
      exact ⟨_, readOffsets_answers inGroup owned⟩

end Ownership

end Subdomain

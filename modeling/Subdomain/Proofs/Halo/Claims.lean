import Subdomain.Proofs.Halo.Derived

/-!
# What a rank can tell about an owner

A rank sees who owns the cells that reference an entity, as far as these are its own or in its rings.
The owner that it works out is the least of theirs, and the users that it knows of are other ranks that
have one of the cells in their closures.
-/

namespace Subdomain

open Subdomain.Group Ownership

namespace Derived

variable {claims : List Claim} {start rank : Rank} {users : RankSet}

theorem le_nobody (rank : Rank) : rank ≤ nobody := by
  rw [UInt64.le_iff_toNat_le]
  exact Nat.le_of_lt_succ rank.toNat_lt

/-- The least owner is none but the owners' and none of theirs is less. -/
theorem foldl_min_le (claims : List Claim) (start : Rank) :
    claims.foldl (fun least claim => min least claim.owner) start ≤ start ∧
      ∀ claim ∈ claims, claims.foldl (fun least claim => min least claim.owner) start ≤ claim.owner := by
  induction claims generalizing start with
  | nil => simp
  | cons head rest ih =>
      rcases ih (min start head.owner) with ⟨below, each⟩
      rw [List.foldl_cons, List.forall_mem_cons]
      constructor
      · exact UInt64.le_trans below Std.min_le_left
      · exact ⟨UInt64.le_trans below Std.min_le_right, each⟩

theorem foldl_min_mem (claims : List Claim) (start : Rank) :
    claims.foldl (fun least claim => min least claim.owner) start = start ∨
      ∃ claim ∈ claims,
        claims.foldl (fun least claim => min least claim.owner) start = claim.owner := by
  induction claims generalizing start with
  | nil => exact .inl rfl
  | cons head rest ih =>
      rw [List.foldl_cons]
      cases ih (min start head.owner) with
      | inl first =>
          rw [first]
          cases Std.MinEqOr.min_eq_or start head.owner with
          | inl same => exact .inl same
          | inr same => exact .inr ⟨head, List.mem_cons_self, same⟩
      | inr later =>
          rcases later with ⟨claim, member, same⟩
          exact .inr ⟨claim, List.mem_cons_of_mem _ member, same⟩

theorem mem_foldl_union :
    rank ∈ claims.foldl (fun users claim => users ∪ claim.users) users ↔
      rank ∈ users ∨ ∃ claim ∈ claims, rank ∈ claim.users := by
  induction claims generalizing users with
  | nil => simp
  | cons head rest ih => simp [ih, or_assoc]

/-- The owner least of all, and all users, of some claims. -/
def combine (claims : List Claim) : Claim where
  owner := claims.foldl (fun least claim => min least claim.owner) nobody
  users := claims.foldl (fun users claim => users ∪ claim.users) ∅

theorem claim_eq_ok_iff {adjacency : Adjacency} {halo : PrimaryHalo} {dim : Nat} {id : EntityId}
    {cells : IdSet} (references : adjacency.referencers dim id = .ok cells) {claim : Claim} :
    Derived.claim adjacency halo rank dim id = .ok claim ↔
      ∃ claims, cells.toList.mapM (claimThrough halo rank id) = .ok claims ∧
        (combine claims).owner ≠ nobody ∧ combine claims = claim := by
  simp only [Derived.claim, references, bind_eq_ok, Except.ok.injEq, exists_eq_left']
  apply exists_congr
  intro claims
  apply and_congr_right
  intro _
  by_cases unowned : claims.foldl (fun least claim => min least claim.owner) nobody = nobody
  · simp [combine, unowned, throw, throwThe, MonadExceptOf.throw]
  · simp [combine, unowned, pure, Except.pure]

end Derived

/-! ## What the coloring of cells leaves -/

namespace Decomposition

variable {parts : Decomposition} {size : Rank} {seat : Seat} {cell id : EntityId}

/-- A rank has a record of every cell in its rings that it copies from the owner. -/
theorem get?_remote (colorable : parts.Colorable size) (inGroup : seat.size = size)
    {record : EntityRecord} :
    (parts.halo size seat).remote.get? cell = some record ↔
      ∃ owner : Seat, owner.size = size ∧ cell ∈ copiesOf parts.primary parts.rings seat owner ∧
        recordAt parts.primary owner cell = record := by
  rw [halo, haloFrom]
  exact get?_remoteById colorable.rings inGroup

/-- A rank knows which others have an owned cell in their first ring. -/
theorem get?_nearestUsers {users : RankSet} :
    (parts.halo size seat).nearestUsers.get? cell = some users ↔
      (cell ∈ parts.primary seat ∧
        sharersOf size (copiesOf parts.primary parts.nearest) seat cell = users) ∧
          users.isEmpty = false := by
  rw [halo, haloFrom]
  dsimp only
  rw [PrimaryHalo.usersById_resolutionOf]
  have keys : ((((parts.primary seat).toList.map fun id =>
      (id, sharersOf size (copiesOf parts.primary parts.nearest) seat id)).filter
        fun entry => !entry.2.isEmpty).map Prod.fst).Nodup := by
    rw [List.filter_map, List.map_map]
    have ids : Prod.fst ∘ (fun id =>
        (id, sharersOf size (copiesOf parts.primary parts.nearest) seat id)) = fun id => id := rfl
    rw [ids, List.map_id']
    exact (parts.primary seat).nodup_toList.filter _
  rw [SortedMap.get?_ofList_eq_some_iff keys]
  simp only [List.mem_filter, List.mem_map, Prod.mk.injEq, SortedSet.mem_toList, Bool.not_eq_true']
  constructor
  · rintro ⟨⟨id, owned, rfl, same⟩, shared⟩
    exact ⟨⟨owned, same⟩, shared⟩
  · rintro ⟨⟨owned, same⟩, shared⟩
    exact ⟨⟨cell, owned, rfl, same⟩, shared⟩

/-- The ranks of which a claim tells: others that have the cell in their closures. -/
def Sees (parts : Decomposition) (size : Rank) (seat : Seat) (cell : EntityId) (rank : Rank) : Prop :=
  ∃ user : Seat, user.size = size ∧ user.rank = rank ∧ user ≠ seat ∧ cell ∈ parts.closure user

theorem mem_closure_of_primary (owned : cell ∈ parts.primary seat) : cell ∈ parts.closure seat :=
  SortedSet.mem_union.2 (.inl owned)

theorem mem_closure_of_nearest (near : cell ∈ parts.nearest seat) : cell ∈ parts.closure seat :=
  (SortedSet.mem_sdiff.1 near).1

theorem mem_primary_or_nearest (inside : cell ∈ parts.closure seat) :
    cell ∈ parts.primary seat ∨ cell ∈ parts.nearest seat := by
  by_cases owned : cell ∈ parts.primary seat
  · exact .inl owned
  · exact .inr (SortedSet.mem_sdiff.2 ⟨inside, owned⟩)

theorem mem_nearest_or_nextNearest
    (neighbor : cell ∈ (parts.adjacency seat).neighbors (parts.nearest seat) parts.config.thruDim) :
    cell ∈ parts.closure seat ∨ cell ∈ parts.nextNearest seat := by
  by_cases inside : cell ∈ parts.closure seat
  · exact .inl inside
  · exact .inr (SortedSet.mem_sdiff.2 ⟨SortedSet.mem_union.2 (.inr neighbor), inside⟩)

theorem sees_of_nearestUsers {rank : Rank}
    (user : rank ∈ ((parts.halo size seat).nearestUsers.get? cell).getD ∅) :
    parts.Sees size seat cell rank := by
  cases found : (parts.halo size seat).nearestUsers.get? cell with
  | none =>
      rw [found] at user
      cases user
  | some users =>
      rw [found] at user
      rcases (get?_nearestUsers.1 found).1.2 with rfl
      rcases mem_sharersOf.1 user with ⟨other, otherInGroup, sameRank, copied⟩
      rcases mem_copiesOf.1 copied with ⟨apart, near, _⟩
      exact ⟨other, otherInGroup, sameRank, Ne.symm apart, mem_closure_of_nearest near⟩

/-- The peers that have a cell in the overlap of the first rings. -/
def watchers (parts : Decomposition) (size : Rank) (seat : Seat) (cell : EntityId) : RankSet :=
  .ofList (((parts.halo size seat).overlaps.toList.filter
    fun entry => decide (cell ∈ entry.2)).map Prod.fst)

theorem sees_of_watchers {rank : Rank} (watcher : rank ∈ parts.watchers size seat cell) :
    parts.Sees size seat cell rank := by
  rw [watchers, SortedSet.mem_ofList, List.mem_map] at watcher
  rcases watcher with ⟨⟨_, common⟩, member, rfl⟩
  rw [List.mem_filter, decide_eq_true_eq] at member
  rcases member with ⟨member, inside⟩
  rcases Gather.get?_overlapsOf.1 (SortedMap.get?_eq_some_iff.2 member) with
    ⟨other, otherInGroup, sameRank, apart, _, rfl⟩
  have near := (SortedSet.mem_inter.1 inside).1
  exact ⟨other, otherInGroup, sameRank, apart, mem_closure_of_nearest near⟩

/-! ## Claims -/

theorem claimThrough_eq :
    Derived.claimThrough (parts.halo size seat) seat.rank id cell =
      if cell ∈ parts.primary seat then
        .ok ⟨seat.rank, ((parts.halo size seat).nearestUsers.get? cell).getD ∅ ∪
          parts.watchers size seat cell⟩
      else match (parts.halo size seat).remote.get? cell with
        | some record => .ok ⟨record.owner, .singleton record.owner ∪ parts.watchers size seat cell⟩
        | none => .error (.unresolvedReferencer id cell) := by
  have primary : (parts.halo size seat).coloring.primary = parts.primary seat := by
    rw [PrimaryHalo.coloring_halo, cellColoring, Coloring.primary_assemble]
  rw [Derived.claimThrough, primary]
  rfl

/-- A cell tells its owner, and of no user that does not have it in its closure. -/
theorem claimThrough_tells (colorable : parts.Colorable size) (inGroup : seat.size = size)
    {claim : Derived.Claim}
    (told : Derived.claimThrough (parts.halo size seat) seat.rank id cell = .ok claim) :
    ∃ owner : Seat, owner.size = size ∧ cell ∈ parts.primary owner ∧ claim.owner = owner.rank ∧
      ∀ rank ∈ claim.users, parts.Sees size seat cell rank := by
  rw [claimThrough_eq] at told
  split at told
  · next owned =>
    cases told
    refine ⟨seat, inGroup, owned, rfl, ?_⟩
    intro rank user
    cases SortedSet.mem_union.1 user with
    | inl user => exact sees_of_nearestUsers user
    | inr watcher => exact sees_of_watchers watcher
  · next foreign =>
    split at told
    · next record found =>
      cases told
      rcases (get?_remote colorable inGroup).1 found with ⟨owner, ownerInGroup, copied, rfl⟩
      rcases mem_copiesOf.1 copied with ⟨apart, _, owned⟩
      refine ⟨owner, ownerInGroup, owned, rfl, ?_⟩
      intro rank user
      cases SortedSet.mem_union.1 user with
      | inl same =>
          rw [SortedSet.mem_singleton] at same
          exact ⟨owner, ownerInGroup, same.symm, apart, mem_closure_of_primary owned⟩
      | inr watcher => exact sees_of_watchers watcher
    · cases told

/-- Nothing is missing for a cell that is owned or in the rings. -/
theorem claimThrough_succeeds (colorable : parts.Colorable size) (inGroup : seat.size = size)
    (known : cell ∈ parts.primary seat ∨ cell ∈ parts.rings seat) :
    ∃ claim, Derived.claimThrough (parts.halo size seat) seat.rank id cell = .ok claim := by
  rw [claimThrough_eq]
  by_cases owned : cell ∈ parts.primary seat
  · rw [if_pos owned]
    exact ⟨_, rfl⟩
  · have ring := known.resolve_left owned
    rcases colorable.rings.owners seat inGroup cell ring with ⟨owner, sole⟩
    have apart : owner ≠ seat := fun same => owned (same ▸ sole.owns)
    have copied := mem_copiesOf.2 ⟨apart, ring, sole.owns⟩
    rw [if_neg owned, (get?_remote colorable inGroup).2 ⟨owner, sole.inGroup, copied, rfl⟩]
    exact ⟨_, rfl⟩

/-- What a rank can tell about an entity, by the cells that reference it. -/
structure Told (parts : Decomposition) (size : Rank) (seat : Seat) (cells : IdSet)
    (claim : Derived.Claim) : Prop where
  attained : ∃ owner : Seat, owner.size = size ∧ claim.owner = owner.rank ∧
    ∃ cell ∈ cells, cell ∈ parts.primary owner
  least : ∀ cell ∈ cells, ∃ owner : Seat, owner.size = size ∧ cell ∈ parts.primary owner ∧
    claim.owner ≤ owner.rank
  users : ∀ rank ∈ claim.users, ∃ cell ∈ cells, parts.Sees size seat cell rank

variable {dim : Nat} {cells : IdSet}

/-- Any answer is the least owner of the cells, with users that have one of them. -/
theorem claim_tells (colorable : parts.Colorable size) (inGroup : seat.size = size)
    (references : (parts.adjacency seat).referencers dim id = .ok cells) {claim : Derived.Claim}
    (told : Derived.claim (parts.adjacency seat) (parts.halo size seat) seat.rank dim id =
      .ok claim) : parts.Told size seat cells claim := by
  rcases (Derived.claim_eq_ok_iff references).1 told with ⟨claims, each, somebody, rfl⟩
  have tells : ∀ claim ∈ claims, ∃ cell ∈ cells, ∃ owner : Seat, owner.size = size ∧
      cell ∈ parts.primary owner ∧ claim.owner = owner.rank ∧
        ∀ rank ∈ claim.users, parts.Sees size seat cell rank := by
    intro claim member
    rcases (mem_of_mapM_eq_ok each).1 member with ⟨cell, reference, through⟩
    exact ⟨cell, reference, claimThrough_tells colorable inGroup through⟩
  constructor
  · rcases (Derived.foldl_min_mem claims Derived.nobody).resolve_left somebody with
      ⟨claim, member, same⟩
    rcases tells claim member with ⟨cell, reference, owner, ownerInGroup, owned, owns, _⟩
    exact ⟨owner, ownerInGroup, same.trans owns, cell, reference, owned⟩
  · intro cell reference
    rcases mapM_succeeds_iff.1 ⟨claims, each⟩ cell reference with ⟨claim, through⟩
    rcases claimThrough_tells colorable inGroup through with ⟨owner, ownerInGroup, owned, owns, _⟩
    have member := (mem_of_mapM_eq_ok each).2 ⟨cell, reference, through⟩
    exact ⟨owner, ownerInGroup, owned, owns ▸ (Derived.foldl_min_le claims _).2 claim member⟩
  · intro rank user
    rcases (Derived.mem_foldl_union.1 user).resolve_left (SortedSet.not_mem_empty rank) with
      ⟨claim, member, user⟩
    rcases tells claim member with ⟨cell, reference, _, _, _, _, sees⟩
    exact ⟨cell, reference, sees rank user⟩

/-- There is an answer for every entity of which all referencing cells are known. -/
theorem claim_succeeds (colorable : parts.Colorable size) (inGroup : seat.size = size)
    (references : (parts.adjacency seat).referencers dim id = .ok cells)
    (referenced : ∃ cell, cell ∈ cells)
    (known : ∀ cell ∈ cells, cell ∈ parts.primary seat ∨ cell ∈ parts.rings seat) :
    ∃ claim, Derived.claim (parts.adjacency seat) (parts.halo size seat) seat.rank dim id =
      .ok claim := by
  have each : ∃ claims, cells.toList.mapM
      (Derived.claimThrough (parts.halo size seat) seat.rank id) = .ok claims := by
    apply mapM_succeeds_iff.2
    intro cell reference
    exact claimThrough_succeeds colorable inGroup (known cell reference)
  rcases each with ⟨claims, each⟩
  rcases referenced with ⟨cell, reference⟩
  rcases mapM_succeeds_iff.1 ⟨claims, each⟩ cell reference with ⟨claim, through⟩
  rcases claimThrough_tells colorable inGroup through with ⟨owner, ownerInGroup, _, owns, _⟩
  have member := (mem_of_mapM_eq_ok each).2 ⟨cell, reference, through⟩
  have least : (Derived.combine claims).owner ≤ owner.rank :=
    owns ▸ (Derived.foldl_min_le claims _).2 claim member
  have somebody : (Derived.combine claims).owner ≠ Derived.nobody := by
    intro none
    rw [none] at least
    have beyond := UInt64.lt_of_le_of_lt least owner.rank_lt
    exact absurd beyond (UInt64.not_lt.2 (Derived.le_nobody owner.size))
  exact ⟨_, (Derived.claim_eq_ok_iff references).2 ⟨claims, each, somebody, rfl⟩⟩

end Decomposition

end Subdomain

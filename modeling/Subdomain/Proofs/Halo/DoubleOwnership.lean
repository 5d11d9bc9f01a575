import Subdomain.Proofs.Halo.Claims
import Subdomain.Proofs.Halo.Pass

/-!
# Cells that two ranks own

Nobody compares the ranks' cells.  A rank only asks who owns the cells of its rings, and a pass fails if
two ranks answer for one of them.  A cell that is in nobody's rings may have two owners unnoticed, and so
may the entities that it references; but no entity has two owners for another reason.
-/

namespace Subdomain

open Exchange Subdomain.Group Ownership

/-! ## What a rank has learnt of the owners of cells -/

/-- A rank knows its own cells, and has a record of another only from the one rank that owns it. -/
structure Informed (size : Rank) (primary : Seat → IdSet) (seat : Seat) (halo : PrimaryHalo) :
    Prop where
  own : halo.coloring.primary = primary seat
  foreign : ∀ cell record, halo.remote.get? cell = some record →
    ∃ owner, SoleOwner size primary cell owner ∧ record.owner = owner.rank

namespace Informed

variable {size : Rank} {primary : Seat → IdSet} {seat : Seat} {halo : PrimaryHalo} {cells : IdSet}
  {adjacency : Adjacency} {dim : Nat} {id cell : EntityId} {claim : Derived.Claim}

/-- A cell tells a rank that the rank owns it, or which other rank alone does. -/
theorem claimThrough (informed : Informed size primary seat halo)
    (told : Derived.claimThrough halo seat.rank id cell = .ok claim) :
    (cell ∈ primary seat ∧ claim.owner = seat.rank) ∨
      ∃ owner, SoleOwner size primary cell owner ∧ claim.owner = owner.rank := by
  rw [Derived.claimThrough, informed.own] at told
  dsimp only at told
  split at told
  · next owned =>
    cases told
    exact .inl ⟨owned, rfl⟩
  · split at told
    · next record found =>
      cases told
      exact .inr (informed.foreign cell record found)
    · cases told

/-- A rank takes an entity for its own only through a cell that it owns. -/
theorem attained (informed : Informed size primary seat halo) (inGroup : seat.size = size)
    (references : adjacency.referencers dim id = .ok cells)
    (claimed : Derived.claim adjacency halo seat.rank dim id = .ok claim)
    (owns : claim.owner = seat.rank) : ∃ cell ∈ cells, cell ∈ primary seat := by
  rcases (Derived.claim_eq_ok_iff references).1 claimed with ⟨claims, each, somebody, rfl⟩
  rcases (Derived.foldl_min_mem claims Derived.nobody).resolve_left somebody with
    ⟨least, member, same⟩
  rcases (mem_of_mapM_eq_ok each).1 member with ⟨cell, reference, told⟩
  refine ⟨cell, reference, ?_⟩
  cases informed.claimThrough told with
  | inl owned => exact owned.1
  | inr foreign =>
      rcases foreign with ⟨owner, sole, names⟩
      have self : owner.rank = seat.rank := names.symm.trans (same.symm.trans owns)
      exact Seat.eq_of_rank (sole.inGroup.trans inGroup.symm) self ▸ sole.owns

/-- A rank overlooks a lower owner of a referencing cell only if it owns the cell as well. -/
theorem overlooked (informed : Informed size primary seat halo)
    (references : adjacency.referencers dim id = .ok cells)
    (claimed : Derived.claim adjacency halo seat.rank dim id = .ok claim)
    (reference : cell ∈ cells) {owner : Seat} (inGroup : owner.size = size)
    (owned : cell ∈ primary owner) (below : owner.rank < claim.owner) : cell ∈ primary seat := by
  rcases (Derived.claim_eq_ok_iff references).1 claimed with ⟨claims, each, _, rfl⟩
  rcases mapM_succeeds_iff.1 ⟨claims, each⟩ cell reference with ⟨through, told⟩
  have least : (Derived.combine claims).owner ≤ through.owner :=
    (Derived.foldl_min_le claims _).2 through ((mem_of_mapM_eq_ok each).2 ⟨cell, reference, told⟩)
  cases informed.claimThrough told with
  | inl own => exact own.1
  | inr foreign =>
      rcases foreign with ⟨other, sole, names⟩
      rw [names, ← sole.only owner inGroup owned] at least
      exact absurd below (UInt64.not_lt.2 least)

end Informed

namespace Pass

/-! ## Two owners of one cell -/

namespace Plan

/-- What the ranks are given, with the settings of one of them for all. -/
def parts (plan : Plan) (seat : Seat) : Decomposition where
  adjacency := plan.adjacency
  primary := plan.primary
  config := plan.config seat

/-- The cells whose owners a rank asks for: both rings around its own. -/
def rings (plan : Plan) (seat : Seat) : IdSet := (plan.parts seat).rings seat

/-- Two ranks own a cell that no rank of the group asks for. -/
structure Unrequested (plan : Plan) (size : Rank) (first second : Seat) (cell : EntityId) : Prop where
  first : cell ∈ plan.primary first
  second : cell ∈ plan.primary second
  rings : ∀ user : Seat, user.size = size → cell ∉ plan.rings user

end Plan

variable {size : Rank} {patience : Patience} {plan : Plan} {halos : Seat → PrimaryHalo}
  {kind : SpaceKind} {colorings : Seat → Coloring} {first second : Seat} {cell entity : EntityId}

/-- Once the cells are colored, every cell that a rank asked for has one owner, and the ranks know it. -/
theorem informed_of_completes (cells : Completes patience size plan.colorCells halos) :
    Resolvable size plan.primary plan.rings ∧
      ∀ seat : Seat, seat.size = size → Informed size plan.primary seat (halos seat) := by
  have stages := (completes_congr fun seat _ =>
    PrimaryHalo.color_eq (plan.parts seat) seat).1 cells
  rw [Gather.completes_overlaps_iff, completes_resolve_iff, completes_resolve_iff,
    completes_required_iff, completes_pure_iff] at stages
  rcases stages with ⟨_, _, resolvable, _, same⟩
  have asked : Resolvable size plan.primary plan.rings := resolvable
  apply And.intro asked
  intro seat inGroup
  rw [← same seat inGroup]
  constructor
  · rfl
  · intro cell record found
    rcases (get?_remoteById asked inGroup).1 found with ⟨owner, ownerInGroup, copied, rfl⟩
    exact ⟨owner, asked.soleOwner inGroup ownerInGroup copied, rfl⟩

/-- A cell with two owners is in nobody's rings once the cells are colored. -/
theorem unrequested_of_completes (cells : Completes patience size plan.colorCells halos)
    (firstInGroup : first.size = size) (secondInGroup : second.size = size) (apart : first ≠ second)
    (firstOwns : cell ∈ plan.primary first) (secondOwns : cell ∈ plan.primary second) :
    plan.Unrequested size first second cell := by
  constructor
  · exact firstOwns
  · exact secondOwns
  · intro user userInGroup requested
    rcases (informed_of_completes cells).1.owners user userInGroup cell requested with ⟨owner, sole⟩
    have alone := sole.only second secondInGroup secondOwns
    exact apart ((sole.only first firstInGroup firstOwns).trans alone.symm)

/-! ## Two owners of one entity -/

/-- The cells by which it is decided who owns an entity of a space. -/
def sources (adjacency : Adjacency) (entity : EntityId) : SpaceKind → Except Error IdSet
  | .primary => .ok (.singleton entity)
  | .entities dim => adjacency.referencers dim entity

theorem references_of_claim {adjacency : Adjacency} {halo : PrimaryHalo} {rank : Rank} {dim : Nat}
    {claim : Derived.Claim} (claimed : Derived.claim adjacency halo rank dim entity = .ok claim) :
    ∃ cells, adjacency.referencers dim entity = .ok cells := by
  rw [Derived.claim, bind_eq_ok] at claimed
  rcases claimed with ⟨cells, references, _⟩
  exact ⟨cells, references⟩

/-- A rank that owns an entity after the cells are colored owns a cell that the entity stems from, and
with it each such cell that a lower rank owns. -/
theorem owns_source (cells : Completes patience size plan.colorCells halos)
    (colors : plan.Colors patience size halos kind colorings) {seat : Seat} (inGroup : seat.size = size)
    (owned : entity ∈ (colorings seat).primary) :
    ∃ ids, sources (plan.adjacency seat) entity kind = .ok ids ∧
      (∃ cell ∈ ids, cell ∈ plan.primary seat) ∧
      ∀ lower : Seat, lower.size = size → lower.rank < seat.rank → ∀ cell ∈ ids,
        cell ∈ plan.primary lower → cell ∈ plan.primary seat := by
  have informed := (informed_of_completes cells).2 seat inGroup
  cases kind with
  | primary =>
      have same : (halos seat).coloring = colorings seat :=
        congrArg Prod.fst (completes_pure_iff.1 colors seat inGroup)
      have own : entity ∈ plan.primary seat := by
        rw [← informed.own, same]
        exact owned
      refine ⟨.singleton entity, rfl, ⟨entity, SortedSet.mem_singleton.2 rfl, own⟩, ?_⟩
      intro lower _ _ cell member _
      exact SortedSet.mem_singleton.1 member ▸ own
  | entities dim =>
      let derivation : Derivation := ⟨plan.adjacency, halos, dim⟩
      have derived : derivation.Derivable size ∧ _ :=
        (Derived.completes_color_iff derivation).1
          ((completes_congr fun seat _ => Derived.colorChecked_eq seat _ _ _ _).1 colors)
      rcases derived with ⟨derivable, checked⟩
      rw [completes_required_iff, completes_pure_iff] at checked
      have same : derivation.coloring size seat = colorings seat :=
        congrArg Prod.fst (checked.2 seat inGroup)
      rw [← same, Derivation.coloring, Coloring.primary_assemble, Derivation.mem_primary] at owned
      rcases owned with ⟨member, owns⟩
      rcases derivable.claims seat inGroup entity member with ⟨claimed, _⟩
      rcases references_of_claim claimed with ⟨ids, references⟩
      refine ⟨ids, references, informed.attained inGroup references claimed owns, ?_⟩
      intro lower lowerInGroup below cell reference lowerOwns
      exact informed.overlooked references claimed reference lowerInGroup lowerOwns (owns ▸ below)

/-- Two owners of an entity both own a cell that it stems from. -/
theorem exists_common_source (cells : Completes patience size plan.colorCells halos)
    (colors : plan.Colors patience size halos kind colorings)
    (firstInGroup : first.size = size) (secondInGroup : second.size = size) (apart : first ≠ second)
    (firstOwns : entity ∈ (colorings first).primary)
    (secondOwns : entity ∈ (colorings second).primary)
    (agreed : sources (plan.adjacency first) entity kind =
      sources (plan.adjacency second) entity kind) :
    ∃ ids, sources (plan.adjacency first) entity kind = .ok ids ∧
      ∃ cell ∈ ids, cell ∈ plan.primary first ∧ cell ∈ plan.primary second := by
  rcases owns_source cells colors firstInGroup firstOwns with ⟨ids, known, own, lower⟩
  rcases owns_source cells colors secondInGroup secondOwns with ⟨others, knownToo, ownToo, lowerToo⟩
  have sameIds : others = ids := Except.ok.inj (knownToo.symm.trans (agreed.symm.trans known))
  subst sameIds
  refine ⟨others, known, ?_⟩
  have otherRank : first.rank ≠ second.rank := fun same =>
    apart (Seat.eq_of_rank (firstInGroup.trans secondInGroup.symm) same)
  -- The lower of the two owns a source, and the higher overlooks that owner.
  cases UInt64.lt_or_lt_of_ne otherRank with
  | inl below =>
      rcases own with ⟨cell, member, owned⟩
      exact ⟨cell, member, owned, lowerToo first firstInGroup below cell member owned⟩
  | inr above =>
      rcases ownToo with ⟨cell, member, owned⟩
      exact ⟨cell, member, lower second secondInGroup above cell member owned, owned⟩

/-! ## What a pass makes of two owners -/

/-- A context has an entity among those that its rank owns in a recorded space. -/
def Owns (context : Context) (id : SpaceId) (entity : EntityId) : Prop :=
  ∃ space ∈ context.spaces.get? id, entity ∈ space.coloring.primary

instance (context : Context) (id : SpaceId) (entity : EntityId) : Decidable (Owns context id entity) :=
  inferInstanceAs (Decidable (∃ space ∈ context.spaces.get? id, entity ∈ space.coloring.primary))

/-- A cell with two owners that is in a ring of any rank makes some rank fail, whatever the ranks are
given.  Where no rank fails, an entity of a recorded space has two owners only if both own a cell that it
stems from and that is in nobody's rings.  (What an entity stems from is the same for ranks that have one
adjacency.) -/
theorem perform_exposes_two_owners (size : Rank) (patience : Patience)
    (nonempty : plan.requests ≠ []) :
    (∀ first second : Seat, first.size = size → second.size = size → first ≠ second →
      ∀ cell, cell ∈ plan.primary first → cell ∈ plan.primary second →
      ∀ user : Seat, user.size = size → cell ∈ plan.rings user →
        ∃ seat : Seat, seat.size = size ∧ ∃ error, Fails size plan.perform seat error) ∧
    ∀ results, Completes patience size plan.perform results →
      ∀ id request, requestFor? plan.requests id = some request →
      ∀ first second : Seat, first.size = size → second.size = size → first ≠ second →
      ∀ entity, Owns (results first).1 id entity → Owns (results second).1 id entity →
        sources (plan.adjacency first) entity request.kind =
          sources (plan.adjacency second) entity request.kind →
        ∃ cells, sources (plan.adjacency first) entity request.kind = .ok cells ∧
          ∃ cell ∈ cells, plan.Unrequested size first second cell := by
  have decided := @decides_perform _ size patience plan nonempty fun _ => pure
  constructor
  · intro first second firstInGroup secondInGroup apart cell firstOwns secondOwns user userInGroup
      requested
    cases decided.settles_or_strands with
    | inl settled =>
        rcases settled with ⟨_, _, halos, _, cells, _⟩
        have unrequested :=
          unrequested_of_completes cells firstInGroup secondInGroup apart firstOwns secondOwns
        exact absurd requested (unrequested.rings user userInGroup)
    | inr strands => exact strands.fails
  · intro results completes id request counts first second firstInGroup secondInGroup apart entity
      firstOwns secondOwns agreed
    rcases decided.of_completes completes with ⟨values, ⟨halos, spaces, cells, colored, same⟩, ended⟩
    have recorded := recorded_of_colored cells colored same
    rcases recorded.requested id request counts with ⟨colorings, colors, found⟩
    have owns : ∀ seat : Seat, seat.size = size → Owns (results seat).1 id entity →
        entity ∈ (colorings seat).primary := by
      intro seat inGroup owned
      rcases owned with ⟨space, known, member⟩
      rw [ended seat inGroup, found seat inGroup] at known
      cases known
      exact member
    rcases exists_common_source cells colors firstInGroup secondInGroup apart
      (owns first firstInGroup firstOwns) (owns second secondInGroup secondOwns) agreed with
      ⟨ids, stems, cell, member, firstHas, secondHas⟩
    exact ⟨ids, stems, cell, member,
      unrequested_of_completes cells firstInGroup secondInGroup apart firstHas secondHas⟩

/-- Two quadrilaterals on two ranks: the first rank has both, and the second has the first as well, which
is then in nobody's rings. -/
def overlapping : Plan :=
  twoQuadrilaterals fun seat => if seat.rank = 0 then .ofList [0, 1] else .singleton 0

/-- No rank fails, and both own the first cell and a vertex of it. -/
theorem settles_overlapping :
    ∃ results : Seat → Context × SortedMap SpaceId SpaceColoring,
      Settles 2 (fun seat => (overlapping.perform seat).run) (fun seat => .ok (results seat)) ∧
      ∀ seat : Seat, seat.size = 2 → Owns (results seat).1 7 0 ∧ Owns (results seat).1 8 3 := by
  let call (seat : Seat) := (overlapping.perform seat).run
  have ended : ∀ position : Fin 2, ∃ value ∈ (runFor 200 (ofCall 2 call)).values[position.val]?,
      ∃ outcome ∈ value, ∃ result ∈ outcome.toOption, Owns result.1 7 0 ∧ Owns result.1 8 3 := by
    decide +kernel
  have reached := reaches_runFor 200 (ofCall 2 call)
  have found : ∀ seat : Seat, seat.size = 2 → ∃ result,
      (runFor 200 (ofCall 2 call)).programs[seat.rank.toNat]? = some (.done (.ok result)) ∧
        Owns result.1 7 0 ∧ Owns result.1 8 3 := by
    intro seat inGroup
    have inside : seat.rank.toNat < 2 := UInt64.lt_iff_toNat_lt.1 (inGroup ▸ seat.rank_lt)
    rcases ended ⟨_, inside⟩ with ⟨value, known, outcome, rfl, result, isResult, owns⟩
    cases outcome with
    | error error => cases isResult
    | ok value =>
        cases isResult
        exact ⟨result, getElem?_values_eq_some_iff.1 known, owns⟩
  have decided := @decides_perform _ 2 .limited overlapping (List.cons_ne_nil _ _) fun _ => pure
  rcases decided.of_succeeded reached found with ⟨results, settles, _, owns⟩
  exact ⟨results, settles, owns⟩

/-- A pass may succeed on all ranks, under any schedule, although two of them own one cell and one
vertex. -/
theorem perform_overlooks_two_owners :
    ∃ results, Succeeds 2 overlapping.perform results ∧
      ∃ first second : Seat, first.size = 2 ∧ second.size = 2 ∧ first ≠ second ∧
        (Owns (results first).1 7 0 ∧ Owns (results second).1 7 0) ∧
        (Owns (results first).1 8 3 ∧ Owns (results second).1 8 3) := by
  rcases settles_overlapping with ⟨results, settles, owns⟩
  have completes : Completes .unlimited 2 overlapping.perform results := settles.completes
  rcases owns ⟨0, 2, by decide⟩ rfl with ⟨firstCell, firstVertex⟩
  rcases owns ⟨1, 2, by decide⟩ rfl with ⟨secondCell, secondVertex⟩
  exact ⟨results, completes.succeeds, _, _, rfl, rfl, by decide, ⟨firstCell, secondCell⟩,
    firstVertex, secondVertex⟩

/-- With the second cell on a third rank, the first is in the third rank's rings and some rank fails.
Where none fails, two ranks own a vertex because they own a cell of it. -/
theorem perform_exposes_two_owners_twoQuadrilaterals :
    let requested := twoQuadrilaterals fun seat => .singleton (if seat.rank = 2 then 1 else 0)
    (∃ seat : Seat, seat.size = 3 ∧ ∃ error, Fails 3 requested.perform seat error) ∧
    ∃ (results : Seat → Context × SortedMap SpaceId SpaceColoring) (first second : Seat),
      Completes .limited 2 overlapping.perform results ∧ first ≠ second ∧
      (Owns (results first).1 8 3 ∧ Owns (results second).1 8 3) ∧
      ∃ cells, sources (overlapping.adjacency first) 3 (.entities 0) = .ok cells ∧
        ∃ cell ∈ cells, overlapping.Unrequested 2 first second cell := by
  intro requested
  constructor
  · have exposed := (@perform_exposes_two_owners requested 3 .limited (List.cons_ne_nil _ _)).1
    apply exposed ⟨0, 3, by decide⟩ ⟨1, 3, by decide⟩ rfl rfl (by decide) 0 _ _ ⟨2, 3, by decide⟩ rfl
    · decide +kernel
    · decide +kernel
    · decide +kernel
  · rcases settles_overlapping with ⟨results, settles, owns⟩
    have completes : Completes .limited 2 overlapping.perform results := settles.completes
    have firstOwns := (owns ⟨0, 2, by decide⟩ rfl).2
    have secondOwns := (owns ⟨1, 2, by decide⟩ rfl).2
    refine ⟨results, ⟨0, 2, by decide⟩, ⟨1, 2, by decide⟩, completes, by decide,
      ⟨firstOwns, secondOwns⟩, ?_⟩
    exact (perform_exposes_two_owners 2 .limited (List.cons_ne_nil _ _)).2 results completes 8
      ⟨8, .entities 0⟩ rfl _ _ rfl rfl (by decide) 3 firstOwns secondOwns rfl

end Pass

end Subdomain

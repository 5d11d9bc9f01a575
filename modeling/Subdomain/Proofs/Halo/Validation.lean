import Subdomain.Proofs.Message.Phases
import Subdomain.Proofs.Halo.Decision

/-!
# Every coloring keeps its rules

Nothing is asked of what the ranks are given: their sets may overlap, and their adjacencies may contradict
themselves and each other.  Whatever coloring a rank gets still keeps its own rules.  A rank copies a cell
only once it has found the single owner of it, and a derived entity only from the one rank that it takes
for the owner, which has to have it.  So the check of a coloring never fails: a rank that gets through its
exchanges has its coloring, and it makes no difference which ranks make the check.
-/

namespace Subdomain

open Exchange Subdomain.Group Ownership

open Collective (Raises raises_pure raises_ofExcept ofExcept_bind)

/-! ## Errors -/

/-- The errors of a coloring: an exchange fails, or the sets of the ranks do not fit together. -/
def Coloring.Fault (error : Error) : Prop := Exchange.Fault error ∨ error.isPartitionFault = true

/-- An adjacency answers some question with an error. -/
def Adjacency.Refuses (adjacency : Adjacency) (error : Error) : Prop :=
  (∃ cells dim, adjacency.entityClosure cells dim = .error error) ∨
    ∃ dim id, adjacency.referencers dim id = .error error

/-- How a coloring ends on a rank: in a value that is well formed or in an error.  That a rule is broken is
an error only if the rank's adjacency answers so. -/
inductive Ends {α : Type} (refuses : Error → Prop) (wellFormed : α → Prop) : Except Error α → Prop where
  | colored {value : α} (keeps : wellFormed value) : Ends refuses wellFormed (.ok value)
  | failed {error : Error} (fault : Coloring.Fault error ∨ refuses error)
      (unbroken : ∀ reason, error = .invariantViolation reason → refuses error) :
      Ends refuses wellFormed (.error error)

theorem Ends.of_errors {α : Type} {refuses : Error → Prop} {wellFormed : α → Prop} {error : Error}
    (errors : Coloring.Fault error ∨ refuses error) : Ends refuses wellFormed (.error error) := by
  apply Ends.failed errors
  rintro reason rfl
  rcases errors with (exchanged | owned) | refused
  · cases exchanged
  · cases owned
  · exact refused

namespace Ownership

variable {seat : Seat} {tag : Tag} {error : Error}

theorem raises_hear (primary request : IdSet) :
    Raises Exchange.Fault (hear seat primary request tag) := by
  apply (raises_allGather seat _).bind
  intro requests
  exact (raises_allToAll seat _).bind fun answers => raises_pure _

theorem raises_ask (owned : SortedMap EntityId UInt64) (requests : List IdSet) :
    Raises Exchange.Fault (ask seat owned requests tag) := by
  apply (raises_allToAll seat _).bind
  intro incoming
  exact (raises_allToAll seat _).bind fun answers => raises_pure _

theorem raises_resolve (primary request : IdSet) :
    Raises Coloring.Fault (resolve seat primary request tag) := by
  rw [resolve_eq_hear]
  apply ((raises_hear primary request).mono fun _ => Or.inl).bind
  intro heard
  apply raises_ofExcept
  intro error failed
  exact .inr (partitionFault_of_resolutionFrom failed)

end Ownership

/-- A check that passes may as well be left out. -/
theorem Coloring.WellFormed.checkedBy_eq {seat : Seat} {coloring : Coloring}
    (wellFormed : coloring.WellFormed seat) (config : ColoringConfig) :
    PrimaryHalo.checkedBy config coloring = .ok () := by
  rw [PrimaryHalo.checkedBy, wellFormed.checkInvariants_eq_ok, ite_self]

/-! ## Cells -/

/-- What the ranks of a group are given: their adjacencies and cells, and settings of their own. -/
structure Inputs where
  adjacency : Seat → Adjacency
  primary : Seat → IdSet
  config : Seat → ColoringConfig

namespace Inputs

variable (inputs : Inputs) (size : Rank) (seat : Seat)

/-- The inputs with the settings of one rank for all. -/
def parts : Decomposition where
  adjacency := inputs.adjacency
  primary := inputs.primary
  config := inputs.config seat

/-- The first ring around a rank's cells, by its own settings. -/
def nearest : IdSet := (inputs.parts seat).nearest seat

/-- Both rings around a rank's cells, by its own settings. -/
def rings : IdSet := (inputs.parts seat).rings seat

/-- The rings of which a rank copies cells. -/
def ghostRings : Seat → IdSet :=
  match (inputs.config seat).ghostDepth with
  | .nearest => inputs.nearest
  | .nextNearest => inputs.rings

/-- The same inputs, with a choice for every rank whether it checks its colorings. -/
def checking (validate : Seat → Bool) : Inputs :=
  { inputs with config := fun seat => { inputs.config seat with validate := validate seat } }

/-- Color the cells of a rank. -/
def colorCells : Collective PrimaryHalo :=
  PrimaryHalo.color seat (inputs.adjacency seat) (inputs.primary seat) (inputs.config seat)

/-- What a rank has heard when it has to settle who owns the cells of both rings. -/
structure Heard where
  overlaps : SortedMap Rank IdSet
  near : Resolution
  rings : Ownership.Heard

/-- The coloring of cells up to the last message that a rank gets. -/
def listen : Collective Heard := do
  let overlaps ← Gather.overlaps seat (inputs.nearest seat) Tags.overlaps
  let near ← resolve seat (inputs.primary seat) (inputs.nearest seat) Tags.owners
  let rings ← hear seat (inputs.primary seat) (inputs.rings seat) Tags.owners
  return ⟨overlaps, near, rings⟩

/-- What a rank makes of what it has heard, if its coloring is not checked. -/
def unchecked (heard : Heard) : Except Error PrimaryHalo := do
  let all ← resolutionFrom seat (inputs.primary seat) (inputs.rings seat) heard.rings.1 heard.rings.2
  return (inputs.parts seat).haloFrom seat heard.overlaps heard.near all

/-- What a rank makes of what it has heard. -/
def conclude (heard : Heard) : Except Error PrimaryHalo := do
  let halo ← inputs.unchecked seat heard
  PrimaryHalo.checkedBy (inputs.config seat) halo.coloring
  return halo

/-- What a rank has heard if all ranks got that far. -/
structure Complete (heard : Heard) : Prop where
  near : heard.near = resolutionOf size inputs.primary inputs.nearest seat
  owners : ∀ id ∈ inputs.nearest seat, ∃ owner, SoleOwner size inputs.primary id owner
  rings : heard.rings = ((Seat.all size).map fun user => (inputs.rings user).toList,
    answersTo size inputs.primary inputs.rings seat)

variable {inputs size seat}

theorem colorCells_eq : inputs.colorCells = fun seat =>
    inputs.listen seat >>= fun heard => Collective.ofExcept (inputs.conclude seat heard) := by
  funext seat
  apply (PrimaryHalo.color_eq (inputs.parts seat) seat).trans
  simp only [listen, bind_assoc, pure_bind]
  apply bind_congr
  intro overlaps
  apply bind_congr
  intro near
  rw [resolve_eq_hear, bind_assoc]
  apply bind_congr
  intro rings
  simp only [conclude, unchecked, bind_assoc, pure_bind, ofExcept_bind]
  rfl

theorem decides_listen : Decides size inputs.listen (fun _ => pure) fun values =>
    ∀ seat : Seat, seat.size = size → inputs.Complete size seat (values seat) := by
  apply Decides.andThen Gather.decides_overlaps
  intro overlaps _ _
  apply Decides.andThen
  · apply decides_resolve
    intro seat _ near
    exact ((heeds_hear _ _).andThen _).andThen _
  intro near _ resolved
  apply Decides.andThen decides_hear
  intro rings _ heard
  apply (decides_pure _).mono
  rintro values rfl seat inGroup
  constructor
  · exact (resolved seat inGroup).1
  · exact (resolved seat inGroup).2
  · exact heard seat inGroup

theorem raises_listen : Raises Coloring.Fault (inputs.listen seat) := by
  have overlaps : Raises Coloring.Fault
      (Gather.overlaps seat (inputs.nearest seat) Tags.overlaps) :=
    ((raises_allGather seat _).mono fun _ => Or.inl).bind fun _ => raises_pure _
  apply overlaps.bind
  intro overlaps
  apply (raises_resolve _ _).bind
  intro near
  apply ((raises_hear _ _).mono fun _ => Or.inl).bind
  intro rings
  exact raises_pure _

/-- A rank that has found the owners of both rings has a coloring that keeps its rules. -/
theorem Complete.wellFormed {heard : Heard} {halo : PrimaryHalo}
    (complete : inputs.Complete size seat heard) (inGroup : seat.size = size)
    (done : inputs.unchecked seat heard = .ok halo) : halo.coloring.WellFormed seat := by
  rw [unchecked, complete.rings, complete.near, resolutionFrom_answersTo inGroup] at done
  cases @outcomeOf_truthful size inputs.primary inputs.rings seat inGroup with
  | inr refused =>
      rcases refused with ⟨error, refused, _⟩
      rw [refused] at done
      cases done
  | inl answered =>
      rcases answered with ⟨answered, owners⟩
      rw [answered] at done
      cases done
      have coloring : ((inputs.parts seat).haloFrom seat heard.overlaps
          (resolutionOf size inputs.primary inputs.nearest seat)
          (resolutionOf size inputs.primary inputs.rings seat)).coloring =
          .assemble size inputs.primary (copiesOf inputs.primary (inputs.ghostRings seat)) seat := by
        apply PrimaryHalo.coloring_haloFrom
        rw [ghostRings]
        change (match (inputs.config seat).ghostDepth with | .nearest => _ | .nextNearest => _) = _
        cases (inputs.config seat).ghostDepth <;> rfl
      rw [coloring]
      apply Coloring.wellFormed_assemble _ inGroup
      apply lawfulFor_copiesOf inGroup
      rw [ghostRings]
      cases (inputs.config seat).ghostDepth with
      | nearest => exact complete.owners
      | nextNearest => exact owners

theorem fault_of_unchecked {heard : Heard} {error : Error}
    (failed : inputs.unchecked seat heard = .error error) : Coloring.Fault error := by
  rcases bind_eq_error.1 failed with unresolved | ⟨_, _, failed⟩
  · exact .inr (partitionFault_of_resolutionFrom unresolved)
  · cases failed

/-- The check of a coloring of cells may as well be left out. -/
theorem Complete.conclude_eq {heard : Heard} (complete : inputs.Complete size seat heard)
    (inGroup : seat.size = size) : inputs.conclude seat heard = inputs.unchecked seat heard := by
  rw [conclude]
  cases done : inputs.unchecked seat heard with
  | error error => rfl
  | ok halo =>
      have passed := (complete.wellFormed inGroup done).checkedBy_eq (inputs.config seat)
      change (PrimaryHalo.checkedBy (inputs.config seat) halo.coloring >>= fun _ => .ok halo) = _
      rw [passed]
      rfl

end Inputs

/-! ## Derived entities -/

namespace Derived

/-- What a rank starts from when it derives entities: its halo, and who owns what its cells reference. -/
structure Start where
  halo : PrimaryHalo
  claims : List (EntityId × Claim)

/-- The entities that a rank owns, each with its claim and number. -/
def ownedBy (rank : Rank) (claims : List (EntityId × Claim)) : List ((EntityId × Claim) × Nat) :=
  (claims.filter fun entry => entry.2.owner == rank).zipIdx

/-- The offsets of the entities that a rank owns. -/
def numbersOf (owned : List ((EntityId × Claim) × Nat)) : SortedMap EntityId UInt64 :=
  .ofList (owned.map fun entry => (entry.1.1, .ofNat entry.2))

/-- What a rank requests from every rank. -/
def requestsOf (seat : Seat) (claims : List (EntityId × Claim)) : List (Rank × IdSet) :=
  seat.ranks.map fun rank => (rank, .ofList ((claims.filter fun entry =>
    entry.2.owner == rank && rank != seat.rank).map Prod.fst))

/-- The claims that a rank starts from, if it has colored its cells. -/
def start (seat : Seat) (adjacency : Adjacency) (dim : Nat) (cells : Except Error PrimaryHalo) :
    Except Error Start := do
  let halo ← cells
  let ids ← adjacency.entityClosure halo.closure dim
  let claims ← claims seat adjacency halo dim ids
  return ⟨halo, claims⟩

/-- The coloring of derived entities up to the last message that a rank gets. -/
def meet (seat : Seat) (adjacency : Adjacency) (dim : Nat) (cells : Except Error PrimaryHalo) :
    Collective (Start × Heard) := do
  let start ← Collective.ofExcept (start seat adjacency dim cells)
  let heard ← ask seat (numbersOf (ownedBy seat.rank start.claims))
    ((requestsOf seat start.claims).map Prod.snd) Tags.offsets
  return (start, heard)

/-- What a rank makes of what it has heard, if its coloring is not checked. -/
def unchecked (seat : Seat) (claims : List (EntityId × Claim)) (heard : Heard) :
    Except Error (Coloring × Summary) := do
  let answer ← concludeFrom seat (numbersOf (ownedBy seat.rank claims))
    ((requestsOf seat claims).map Prod.snd) heard.1 heard.2
  let records ← (ownedBy seat.rank claims).mapM fun entry =>
    ownedRecord seat.rank answer.requesters entry.1.1 entry.1.2 (.ofNat entry.2)
  let coloring := Coloring.ofRecords records (.ofList (ghostRecords (requestsOf seat claims) answer.offsets))
  return (coloring, coloring.summarize)

/-- What a rank makes of what it has heard. -/
def conclude (seat : Seat) (config : ColoringConfig) (met : Start × Heard) :
    Except Error (PrimaryHalo × Coloring × Summary) := do
  let derived ← unchecked seat met.1.claims met.2
  PrimaryHalo.checkedBy config derived.1
  return (met.1.halo, derived)

/-- Go on with the coloring of the cells, and derive entities. -/
def colorAfter (seat : Seat) (adjacency : Adjacency) (config : ColoringConfig) (dim : Nat)
    (cells : Except Error PrimaryHalo) : Collective (PrimaryHalo × Coloring × Summary) := do
  let halo ← Collective.ofExcept cells
  let derived ← colorChecked seat adjacency config halo dim
  return (halo, derived)

variable {size : Rank} {seat : Seat} {adjacency : Adjacency} {config : ColoringConfig} {dim : Nat}
  {cells : Except Error PrimaryHalo} {error : Error}

theorem colorAfter_eq : colorAfter seat adjacency config dim cells =
    meet seat adjacency dim cells >>= fun met => Collective.ofExcept (conclude seat config met) := by
  simp only [colorAfter, meet, start, colorChecked_eq, color, ofExcept_bind, bind_assoc, pure_bind]
  apply bind_congr
  intro halo
  apply bind_congr
  intro ids
  apply bind_congr
  intro claims
  have count : ((requestsOf seat claims).map Prod.snd).length = seat.size.toNat := by
    simp only [requestsOf, List.length_map, Seat.ranks, length_ranksBelow]
  have asks := offsets_eq_ask seat (numbersOf (ownedBy seat.rank claims)) count Tags.offsets
  rw [ownedBy, requestsOf, numbersOf] at asks
  rw [asks, bind_assoc]
  apply bind_congr
  intro heard
  simp only [conclude, unchecked, bind_assoc, pure_bind, ofExcept_bind]
  rfl

/-! ## Errors of derived entities -/

theorem partitionFault_of_claimThrough {halo : PrimaryHalo} {rank : Rank} {id cell : EntityId}
    (failed : claimThrough halo rank id cell = .error error) : error.isPartitionFault = true := by
  rw [claimThrough] at failed
  dsimp only at failed
  split at failed
  · cases failed
  · split at failed <;> cases failed
    rfl

theorem fault_or_refuses_of_claim {halo : PrimaryHalo} {rank : Rank} {id : EntityId}
    (failed : claim adjacency halo rank dim id = .error error) :
    Coloring.Fault error ∨ adjacency.Refuses error := by
  rcases bind_eq_error.1 failed with refused | ⟨cells, _, failed⟩
  · exact .inr (.inr ⟨dim, id, refused⟩)
  · rcases bind_eq_error.1 failed with unresolved | ⟨claims, _, failed⟩
    · rcases exists_of_mapM_eq_error unresolved with ⟨cell, _, failed⟩
      exact .inl (.inr (partitionFault_of_claimThrough failed))
    · dsimp only at failed
      split at failed <;> cases failed
      exact .inl (.inr rfl)

theorem fault_or_refuses_of_claims {halo : PrimaryHalo} {ids : IdSet}
    (failed : claims seat adjacency halo dim ids = .error error) :
    Coloring.Fault error ∨ adjacency.Refuses error := by
  rcases exists_of_mapM_eq_error failed with ⟨id, _, failed⟩
  rcases bind_eq_error.1 failed with unclaimed | ⟨claim, _, failed⟩
  · exact fault_or_refuses_of_claim unclaimed
  · split at failed <;> cases failed
    exact .inl (.inl trivial)

theorem partitionFault_of_unchecked {claims : List (EntityId × Claim)} {heard : Heard}
    (failed : unchecked seat claims heard = .error error) : error.isPartitionFault = true := by
  rcases bind_eq_error.1 failed with unanswered | ⟨answer, _, failed⟩
  · exact partitionFault_of_concludeFrom unanswered
  · rcases bind_eq_error.1 failed with disagreed | ⟨records, _, failed⟩
    · rcases exists_of_mapM_eq_error disagreed with ⟨entry, _, failed⟩
      rw [ownedRecord] at failed
      split at failed <;> cases failed
      rfl
    · cases failed

/-- Up to its last message a rank fails as its cells do, or in an exchange, or because nobody owns what
it references, or because its adjacency does not answer. -/
theorem raises_meet : Raises (fun error => cells = .error error ∨ Coloring.Fault error ∨
    adjacency.Refuses error) (meet seat adjacency dim cells) := by
  apply Raises.bind
  · apply raises_ofExcept
    intro error failed
    rcases bind_eq_error.1 failed with uncolored | ⟨halo, _, failed⟩
    · exact .inl uncolored
    · rcases bind_eq_error.1 failed with refused | ⟨ids, _, failed⟩
      · exact .inr (.inr (.inl ⟨halo.closure, dim, refused⟩))
      · rcases bind_eq_error.1 failed with unclaimed | ⟨claims, _, failed⟩
        · exact .inr (fault_or_refuses_of_claims unclaimed)
        · cases failed
  · intro start
    apply Raises.bind
    · exact (raises_ask _ _).mono fun _ fault => .inr (.inl (.inl fault))
    · intro heard
      exact raises_pure _

/-! ## What a rank has heard -/

section Met

variable {derivation : Derivation}

/-- What a rank has heard if all ranks got that far: what it has claimed follows from its own adjacency
and cells, and what it hears from the claims of all. -/
structure Met (derivation : Derivation) (size : Rank) (seat : Seat) (met : Start × Heard) : Prop where
  claims : met.1.claims =
    (derivation.entities seat).toList.map fun id => (id, derivation.claim seat id)
  heard : met.2 = heardOf size (fun owner => (derivation.primary owner).numbering)
    (fun user => (Seat.all size).map (derivation.copies user)) seat

theorem numbersOf_claims : numbersOf (ownedBy seat.rank
    ((derivation.entities seat).toList.map fun id => (id, derivation.claim seat id))) =
      (derivation.primary seat).numbering := by
  rw [numbersOf, ownedBy, owned_eq, List.map_map]
  exact numbering_eq (derivation.primary seat)

theorem requestsOf_claims (inGroup : seat.size = size) : requestsOf seat
    ((derivation.entities seat).toList.map fun id => (id, derivation.claim seat id)) =
      (Seat.all size).map fun owner => (owner.rank, derivation.copies seat owner) :=
  requests_eq inGroup

/-- A rank that starts to ask has colored its cells, and its claims are those of the derivation. -/
theorem claims_of_start {started : Start} (inGroup : seat.size = size)
    (halo : derivation.halo seat = started.halo)
    (done : start seat (derivation.adjacency seat) derivation.dim cells = .ok started) :
    cells = .ok started.halo ∧ started.claims =
      (derivation.entities seat).toList.map fun id => (id, derivation.claim seat id) := by
  rcases bind_eq_ok.1 done with ⟨colored, cells, done⟩
  rcases bind_eq_ok.1 done with ⟨ids, closed, done⟩
  rcases bind_eq_ok.1 done with ⟨claims, claimed, done⟩
  cases done
  constructor
  · exact cells
  · change derivation.halo seat = colored at halo
    rw [← halo] at closed claimed
    rw [entities_eq closed] at claimed
    exact claims_eq inGroup claimed

/-- A rank that gets its offsets has the coloring that follows from what all claim. -/
theorem Met.coloring {met : Start × Heard} {result : Coloring × Summary}
    (known : Met derivation size seat met) (inGroup : seat.size = size)
    (done : unchecked seat met.1.claims met.2 = .ok result) :
    result = (derivation.coloring size seat, (derivation.coloring size seat).summarize) := by
  rw [known.claims, known.heard] at done
  rcases bind_eq_ok.1 done with ⟨answer, concluded, done⟩
  rcases bind_eq_ok.1 done with ⟨records, recorded, done⟩
  rw [numbersOf_claims, requestsOf_claims inGroup, List.map_map] at concluded
  have counted : ((Seat.all size).map (derivation.copies seat)).length = size.toNat := by
    rw [List.length_map, Seat.length_all]
  have answered : answer = offsetAnswerOf size derivation.primary derivation.copies seat :=
    outcomeFor_numbering inGroup ((concludeFrom_exchanged inGroup counted).symm.trans concluded)
  rw [ownedBy, owned_eq, List.mapM_map, answered] at recorded
  have filled := ownedRecords_eq recorded
  rw [filled, answered, requestsOf_claims inGroup, ghostRecords_eq] at done
  exact (Except.ok.inj done).symm

/-- A rank that gets its offsets has a coloring that keeps its rules. -/
theorem Met.wellFormed {met : Start × Heard} {result : Coloring × Summary}
    (known : Met derivation size seat met) (inGroup : seat.size = size)
    (done : unchecked seat met.1.claims met.2 = .ok result) : result.1.WellFormed seat := by
  rw [known.coloring inGroup done]
  exact Coloring.wellFormed_assemble Derivation.lawfulFor inGroup

/-- The check of a coloring of derived entities may as well be left out. -/
theorem Met.conclude_eq {met : Start × Heard} (known : Met derivation size seat met)
    (inGroup : seat.size = size) (config other : ColoringConfig) :
    conclude seat config met = conclude seat other met := by
  rw [conclude, conclude]
  cases done : unchecked seat met.1.claims met.2 with
  | error error => rfl
  | ok result =>
      have wellFormed := known.wellFormed inGroup done
      change (PrimaryHalo.checkedBy config result.1 >>= _) = PrimaryHalo.checkedBy other result.1 >>= _
      rw [wellFormed.checkedBy_eq, wellFormed.checkedBy_eq]

end Met

section Phases

variable {adjacencies : Seat → Adjacency} {halos : Seat → Except Error PrimaryHalo}

theorem decides_meet :
    Decides size (fun seat => meet seat (adjacencies seat) dim (halos seat)) (fun _ => pure)
      fun values => ∃ derivation : Derivation, ∀ seat : Seat, seat.size = size →
        halos seat = .ok (values seat).1.halo ∧ Met derivation size seat (values seat) := by
  apply Decides.andThen
  · have : Inhabited Start := ⟨{}, []⟩
    apply decides_ofExcept
    intro seat _ started
    exact ((heeds_ask _ _).andThen _).andThen _
  intro starts _ started
  let derivation : Derivation := ⟨adjacencies, fun seat => (starts seat).halo, dim⟩
  have known : ∀ seat : Seat, seat.size = size → halos seat = .ok (starts seat).halo ∧
      (starts seat).claims =
        (derivation.entities seat).toList.map fun id => (id, derivation.claim seat id) :=
    fun seat inGroup => claims_of_start inGroup rfl (started seat inGroup)
  have counted : ∀ seat : Seat, seat.size = size →
      ((Seat.all size).map (derivation.copies seat)).length = size.toNat := by
    intro seat _
    rw [List.length_map, Seat.length_all]
  apply Decides.andThen
  · apply (decides_ask counted).congr
    intro seat inGroup
    rw [(known seat inGroup).2, numbersOf_claims, requestsOf_claims inGroup, List.map_map]
    rfl
  intro heard _ exchanged
  apply (decides_pure _).mono
  rintro values rfl
  refine ⟨derivation, ?_⟩
  intro seat inGroup
  exact ⟨(known seat inGroup).1, (known seat inGroup).2, exchanged seat inGroup⟩

variable {configs : Seat → ColoringConfig}

/-- Wherever the colorings of the cells have led the ranks, the derived colorings keep their rules. -/
theorem outcomes_colorAfter
    (colored : ∀ seat : Seat, seat.size = size → ∀ halo, halos seat = .ok halo →
      halo.coloring.WellFormed seat)
    (faults : ∀ seat : Seat, seat.size = size → ∀ error, halos seat = .error error →
      Coloring.Fault error) :
    Outcomes size (fun seat => colorAfter seat (adjacencies seat) (configs seat) dim (halos seat))
      fun seat => Ends (adjacencies seat).Refuses fun result =>
        result.1.coloring.WellFormed seat ∧ result.2.1.WellFormed seat := by
  simp only [colorAfter_eq]
  refine decides_meet.outcomes ?_ ?_
  · refine (outcomes_of_raises fun seat _ => raises_meet).mono ?_
    rintro seat inGroup outcome errors error rfl
    apply Ends.of_errors
    cases errors error rfl with
    | inl uncolored => exact .inl (faults seat inGroup error uncolored)
    | inr fault => exact fault
  · rintro values ⟨derivation, known⟩
    apply outcomes_ofExcept
    intro seat inGroup
    rcases known seat inGroup with ⟨cells, met⟩
    rw [conclude]
    cases done : unchecked seat (values seat).1.claims (values seat).2 with
    | error error => exact .of_errors (.inl (.inr (partitionFault_of_unchecked done)))
    | ok result =>
        have wellFormed := met.wellFormed inGroup done
        change Ends _ _ (PrimaryHalo.checkedBy (configs seat) result.1 >>= fun _ =>
          .ok ((values seat).1.halo, result))
        rw [wellFormed.checkedBy_eq]
        exact .colored ⟨colored seat inGroup _ cells, wellFormed⟩

/-- Wherever the colorings of the cells have led the ranks, it makes no difference for the derived
colorings which ranks check them. -/
theorem refines_colorAfter (others : Seat → ColoringConfig) :
    Refines size (fun seat => colorAfter seat (adjacencies seat) (configs seat) dim (halos seat))
      fun seat => colorAfter seat (adjacencies seat) (others seat) dim (halos seat) := by
  simp only [colorAfter_eq]
  apply decides_meet.refines
  rintro values ⟨derivation, known⟩
  apply refines_of_eq
  intro seat inGroup
  rw [(known seat inGroup).2.conclude_eq inGroup (configs seat) (others seat)]

end Phases

end Derived

/-! ## All colorings -/

namespace Inputs

variable {inputs : Inputs} {size : Rank} {seat : Seat} {dim : Nat}

/-- Color the cells of a rank and then the entities of a dimension. -/
def colorEntities (inputs : Inputs) (dim : Nat) (seat : Seat) :
    Collective (PrimaryHalo × Coloring × Summary) := do
  let halo ← inputs.colorCells seat
  let derived ← Derived.colorChecked seat (inputs.adjacency seat) (inputs.config seat) halo dim
  return (halo, derived)

theorem colorEntities_eq : inputs.colorEntities dim = fun seat =>
    inputs.listen seat >>= fun heard => Derived.colorAfter seat (inputs.adjacency seat)
      (inputs.config seat) dim (inputs.conclude seat heard) := by
  funext seat
  rw [colorEntities, colorCells_eq, bind_assoc]
  rfl

/-- What ranks hear has nothing to do with their checks. -/
theorem listen_checking (validate : Seat → Bool) : (inputs.checking validate).listen = inputs.listen := rfl

/-- Where the cells have led a rank once all have got their last message for them. -/
theorem Complete.ends {heard : Heard} (complete : inputs.Complete size seat heard)
    (inGroup : seat.size = size) : Ends (fun _ => False) (fun halo => halo.coloring.WellFormed seat)
      (inputs.conclude seat heard) := by
  rw [complete.conclude_eq inGroup]
  cases done : inputs.unchecked seat heard with
  | error error => exact .of_errors (.inl (fault_of_unchecked done))
  | ok halo => exact .colored (complete.wellFormed inGroup done)

theorem listen_fails {α : Type} {refuses : Seat → Error → Prop} {wellFormed : Seat → α → Prop} :
    Outcomes size inputs.listen fun seat outcome => ∀ error, outcome = .error error →
      Ends (refuses seat) (wellFormed seat) (.error error) := by
  refine (outcomes_of_raises fun seat _ => raises_listen).mono ?_
  intro seat _ outcome faults error failed
  exact .of_errors (.inl (faults error failed))

theorem conclude_checking {heard : Heard} (complete : inputs.Complete size seat heard)
    (inGroup : seat.size = size) (validate : Seat → Bool) :
    inputs.conclude seat heard = (inputs.checking validate).conclude seat heard := by
  have completeToo : (inputs.checking validate).Complete size seat heard :=
    ⟨complete.near, complete.owners, complete.rings⟩
  rw [complete.conclude_eq inGroup, completeToo.conclude_eq inGroup]
  rfl

theorem checking_checking (validate : Seat → Bool) :
    (inputs.checking validate).checking (fun seat => (inputs.config seat).validate) = inputs := rfl

theorem refines_colorCells (inputs : Inputs) (size : Rank) (validate : Seat → Bool) :
    Refines size inputs.colorCells (inputs.checking validate).colorCells := by
  rw [colorCells_eq, colorCells_eq, listen_checking]
  apply decides_listen.refines
  intro values complete
  apply refines_of_eq
  intro seat inGroup
  rw [conclude_checking (complete seat inGroup) inGroup validate]

theorem refines_colorEntities (inputs : Inputs) (size : Rank) (dim : Nat) (validate : Seat → Bool) :
    Refines size (inputs.colorEntities dim) ((inputs.checking validate).colorEntities dim) := by
  rw [colorEntities_eq, colorEntities_eq, listen_checking]
  apply decides_listen.refines
  intro values complete
  apply (Derived.refines_colorAfter (inputs.checking validate).config).trans
  apply refines_of_eq
  intro seat inGroup
  rw [conclude_checking (complete seat inGroup) inGroup validate]
  rfl

theorem sameEnds_colorCells (inputs : Inputs) (size : Rank) (validate : Seat → Bool) :
    SameEnds size inputs.colorCells (inputs.checking validate).colorCells := by
  have back := (inputs.checking validate).refines_colorCells size fun seat => (inputs.config seat).validate
  rw [checking_checking] at back
  exact ⟨inputs.refines_colorCells size validate, back⟩

theorem sameEnds_colorEntities (inputs : Inputs) (size : Rank) (dim : Nat) (validate : Seat → Bool) :
    SameEnds size (inputs.colorEntities dim) ((inputs.checking validate).colorEntities dim) := by
  have back := (inputs.checking validate).refines_colorEntities size dim
    fun seat => (inputs.config seat).validate
  rw [checking_checking] at back
  exact ⟨inputs.refines_colorEntities size dim validate, back⟩

/-! ## Nothing fails after the exchanges -/

/-- The exchanges for the cells of a rank: the overlaps, and the owners of the first ring and of both. -/
def exchangeCells (inputs : Inputs) (seat : Seat) :
    Collective (SortedMap Rank IdSet × Resolution × Resolution) := do
  let overlaps ← Gather.overlaps seat (inputs.nearest seat) Tags.overlaps
  let near ← resolve seat (inputs.primary seat) (inputs.nearest seat) Tags.owners
  let all ← resolve seat (inputs.primary seat) (inputs.rings seat) Tags.owners
  return (overlaps, near, all)

/-- What a rank has learnt when the exchanges for its cells are over. -/
def haloAfter (inputs : Inputs) (seat : Seat)
    (heard : SortedMap Rank IdSet × Resolution × Resolution) : PrimaryHalo :=
  (inputs.parts seat).haloFrom seat heard.1 heard.2.1 heard.2.2

/-- All exchanges of a rank.  The last ends when the rank has compared the requests for its entities with
the users that it knows of; that leaves the records of its entities and of its ghosts. -/
def exchangeEntities (inputs : Inputs) (dim : Nat) (seat : Seat) :
    Collective (PrimaryHalo × List EntityRecord × RecordSet) := do
  let heard ← inputs.exchangeCells seat
  let halo := inputs.haloAfter seat heard
  let ids ← Collective.ofExcept ((inputs.adjacency seat).entityClosure halo.closure dim)
  let claims ← Collective.ofExcept (Derived.claims seat (inputs.adjacency seat) halo dim ids)
  let owned := Derived.ownedBy seat.rank claims
  let requests := Derived.requestsOf seat claims
  let answer ← offsets seat (Derived.numbersOf owned) (requests.map Prod.snd) Tags.offsets
  let records ← Collective.ofExcept (owned.mapM fun entry =>
    Derived.ownedRecord seat.rank answer.requesters entry.1.1 entry.1.2 (.ofNat entry.2))
  return (halo, records, .ofList (Derived.ghostRecords requests answer.offsets))

/-- The colorings of a rank when all its exchanges are over. -/
def coloringsAfter (result : PrimaryHalo × List EntityRecord × RecordSet) :
    PrimaryHalo × Coloring × Summary :=
  let coloring := Coloring.ofRecords result.2.1 result.2.2
  (result.1, coloring, coloring.summarize)

/-- A rank that makes no check is left with its exchanges. -/
theorem colorCells_unchecked : (inputs.checking fun _ => false).colorCells = fun seat =>
    inputs.exchangeCells seat >>= fun heard => pure (inputs.haloAfter seat heard) := by
  funext seat
  apply (PrimaryHalo.color_eq ((inputs.checking fun _ => false).parts seat) seat).trans
  simp only [exchangeCells, bind_assoc, pure_bind]
  rfl

theorem colorEntities_unchecked : (inputs.checking fun _ => false).colorEntities dim = fun seat =>
    inputs.exchangeEntities dim seat >>= fun result => pure (coloringsAfter result) := by
  funext seat
  rw [colorEntities, colorCells_unchecked]
  simp only [exchangeEntities, Derived.colorChecked_eq, Derived.color, bind_assoc, pure_bind]
  rfl

/-- Whatever the ranks are given and under every schedule, each coloring that a rank gets keeps its rules,
that of its cells and that of the entities derived from them.  A rank that gets none has failed in an
exchange, or is told that the sets of the ranks do not fit together, or its adjacency has not answered.
A rank that gets through its exchanges has its colorings, and which ranks check theirs makes no difference
to how any can end. -/
theorem colorings_keep_rules (inputs : Inputs) (size : Rank) (dim : Nat) :
    Outcomes size inputs.colorCells (fun seat =>
      Ends (fun _ => False) fun halo => halo.coloring.WellFormed seat) ∧
    Outcomes size (inputs.colorEntities dim) (fun seat =>
      Ends (inputs.adjacency seat).Refuses fun result =>
        result.1.coloring.WellFormed seat ∧ result.2.1.WellFormed seat) ∧
    SameEnds size inputs.colorCells (fun seat =>
      inputs.exchangeCells seat >>= fun heard => pure (inputs.haloAfter seat heard)) ∧
    SameEnds size (inputs.colorEntities dim) (fun seat =>
      inputs.exchangeEntities dim seat >>= fun result => pure (coloringsAfter result)) ∧
    ∀ validate : Seat → Bool,
      SameEnds size inputs.colorCells (inputs.checking validate).colorCells ∧
      SameEnds size (inputs.colorEntities dim) ((inputs.checking validate).colorEntities dim) := by
  refine ⟨?_, ?_, ?_, ?_, ?_⟩
  · rw [colorCells_eq]
    refine decides_listen.outcomes listen_fails ?_
    intro values complete
    apply outcomes_ofExcept
    intro seat inGroup
    exact (complete seat inGroup).ends inGroup
  · rw [colorEntities_eq]
    refine decides_listen.outcomes listen_fails ?_
    intro values complete
    apply Derived.outcomes_colorAfter
    · intro seat inGroup halo concluded
      have ends := (complete seat inGroup).ends inGroup
      rw [concluded] at ends
      cases ends with
      | colored keeps => exact keeps
    · intro seat inGroup error concluded
      have ends := (complete seat inGroup).ends inGroup
      rw [concluded] at ends
      cases ends with
      | failed fault => exact fault.resolve_right id
  · exact colorCells_unchecked ▸ inputs.sameEnds_colorCells size fun _ => false
  · exact colorEntities_unchecked ▸ inputs.sameEnds_colorEntities size dim fun _ => false
  · intro validate
    exact ⟨inputs.sameEnds_colorCells size validate, inputs.sameEnds_colorEntities size dim validate⟩

/-- Two ranks that contradict each other: only the first sees a neighbor in the other, and each takes
entity 10 for its own. -/
def contradictory : Inputs where
  adjacency seat :=
    { cellDim := 1
      neighbors := fun _ _ => if seat.rank = 0 then .singleton 2 else ∅
      entityClosure := fun _ _ => .ok (.ofList [10, 11])
      referencers := fun _ id =>
        .ok (if id = 11 then .singleton 2 else if seat.rank = 0 then .singleton 1 else .singleton 3) }
  primary seat := if seat.rank = 0 then .singleton 1 else .ofList [2, 3]
  config _ := {}

/-- The coloring of derived entities that a rank has ended with. -/
def derivedAt? (group : Group (Except Error (PrimaryHalo × Coloring × Summary))) (seat : Seat) :
    Option Coloring :=
  match group.programs[seat.rank.toNat]? with
  | some (.done (.ok (_, coloring, _))) => some coloring
  | _ => none

/-- Both ranks get a coloring in which they own entity 10, and both colorings keep their rules. -/
theorem colorings_keep_rules_contradictory :
    let first : Seat := ⟨0, 2, by decide⟩
    let second : Seat := ⟨1, 2, by decide⟩
    (Coloring.ofRecords [⟨10, 0, 0, ∅⟩] (.ofList [⟨11, 1, 1, ∅⟩])).WellFormed first ∧
      (Coloring.ofRecords [⟨10, 1, 0, ∅⟩, ⟨11, 1, 1, .singleton 0⟩] ∅).WellFormed second := by
  intro first second
  let group := runFor 300 (ofCall 2 fun seat => (contradictory.colorEntities 0 seat).run)
  have keeps : ∀ seat : Seat, seat.size = 2 → ∀ coloring, derivedAt? group seat = some coloring →
      coloring.WellFormed seat := by
    intro seat inGroup coloring found
    rw [derivedAt?] at found
    split at found
    · next ended =>
      cases found
      cases (colorings_keep_rules contradictory 2 0).2.1 group (reaches_runFor 300 _) seat inGroup _
        ended with
      | colored keeps => exact keeps.2
    · cases found
  exact ⟨keeps first rfl _ (by decide +kernel), keeps second rfl _ (by decide +kernel)⟩

end Inputs

end Subdomain

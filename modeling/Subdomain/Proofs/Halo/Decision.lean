import Subdomain.Proofs.Halo.SummaryWords
import Subdomain.Proofs.Halo.Derived
import Subdomain.Proofs.Halo.OffsetRequests

/-!
# Failures of a coloring

Every collective of a coloring is decided for the group: a rank may fail wherever it asks for owners,
derives entities or checks a coloring, and then it is missed in the next exchange.
-/

namespace Subdomain

open Exchange Subdomain.Group Ownership

variable {β ρ : Type} [Record ρ] {size : Rank} {tag : Tag} {patience : Patience}

theorem decides_allGather {records : Seat → List ρ} {next : Seat → List (List ρ) → Collective β} :
    Decides size (fun seat => allGather seat (records seat) tag) next fun values =>
      ∀ seat : Seat, seat.size = size →
        values seat = (Seat.all size).map records ∧ fits (records seat) = true := by
  apply decides_allToAll.mono
  intro values arrived seat inGroup
  rcases arrived with ⟨same, ready⟩
  subst same
  exact ⟨received_replicate inGroup records, (ready_replicate inGroup).1 (ready seat inGroup)⟩

theorem Gather.decides_overlaps {sets : Seat → IdSet}
    {next : Seat → SortedMap Rank IdSet → Collective β} :
    Decides size (fun seat => overlaps seat (sets seat) tag) next fun _ => True := by
  apply Decides.andThen decides_allGather
  intro all _ _
  exact (decides_pure _).mono fun _ _ => trivial

namespace Ownership

variable {primary request : Seat → IdSet} {owned : Seat → SortedMap EntityId UInt64}
  {requests : Seat → List IdSet}

/-- The requests that a rank hears, and the answers to its own. -/
abbrev Heard := List (List EntityId) × List (List Location)

/-- What a rank hears of requests for offsets. -/
def heardOf (size : Rank) (owned : Seat → SortedMap EntityId UInt64) (requests : Seat → List IdSet)
    (seat : Seat) : Heard :=
  ((Seat.all size).map fun user => (asked requests user seat).toList,
    (Seat.all size).map fun owner =>
      locationsOf owner.rank (owned owner) (asked requests seat owner).toList)

/-- The two exchanges of a request for owners. -/
def hear (seat : Seat) (primary request : IdSet) (tag : Tag) : Collective Heard := do
  let requests ← allGather seat request.toList tag
  let answers ← allToAll seat ((seat.ranks.zip requests).map fun asked =>
    if asked.1 = seat.rank then [] else asked.2.filterMap (locate? seat.rank primary)) (tag + 2)
  return (requests, answers)

/-- The two exchanges of a request for offsets. -/
def ask (seat : Seat) (owned : SortedMap EntityId UInt64) (requests : List IdSet) (tag : Tag) :
    Collective Heard := do
  let incoming ← allToAll seat (requests.map SortedSet.toList) tag
  let answers ← allToAll seat (incoming.map (locationsOf seat.rank owned)) (tag + 2)
  return (incoming, answers)

theorem resolve_eq_hear (seat : Seat) (primary request : IdSet) (tag : Tag) :
    resolve seat primary request tag = hear seat primary request tag >>= fun heard =>
      Collective.ofExcept (resolutionFrom seat primary request heard.1 heard.2) := by
  simp only [resolve_eq, hear, bind_assoc, pure_bind]

theorem offsets_eq_ask (seat : Seat) (owned : SortedMap EntityId UInt64) {requests : List IdSet}
    (count : requests.length = seat.size.toNat) (tag : Tag) :
    offsets seat owned requests tag = ask seat owned requests tag >>= fun heard =>
      Collective.ofExcept (concludeFrom seat owned requests heard.1 heard.2) := by
  simp only [offsets_eq_exchanges seat owned count, ask, bind_assoc, pure_bind]

theorem heeds_hear {seat : Seat} (primary request : IdSet) : Heeds seat (hear seat primary request tag) :=
  (heeds_allGather _).andThen _

theorem heeds_ask {seat : Seat} (owned : SortedMap EntityId UInt64) (requests : List IdSet) :
    Heeds seat (ask seat owned requests tag) :=
  (heeds_allToAll _).andThen _

/-- The exchanges of a request for owners are decided, and what a rank hears in them follows from what
all requested and own. -/
theorem decides_hear {next : Seat → Heard → Collective β} :
    Decides size (fun seat => hear seat (primary seat) (request seat) tag) next fun values =>
      ∀ seat : Seat, seat.size = size →
        values seat = ((Seat.all size).map fun user => (request user).toList,
          answersTo size primary request seat) := by
  apply Decides.andThen decides_allGather
  intro requests _ gathered
  apply Decides.andThen
  · apply Decides.congr decides_allToAll
    intro seat inGroup
    rw [(gathered seat inGroup).1, replies_eq inGroup]
  rintro answers _ ⟨rfl, _⟩
  apply (decides_pure _).mono
  rintro values rfl seat inGroup
  dsimp only
  rw [(gathered seat inGroup).1, received_replies inGroup]

/-- A request for owners is decided, if what the ranks go on with needs every rank.  Where it is answered
everywhere, every requested id has one owner. -/
theorem decides_resolve {next : Seat → Resolution → Collective β}
    (heeds : ∀ seat : Seat, seat.size = size → ∀ resolution, Heeds seat (next seat resolution)) :
    Decides size (fun seat => resolve seat (primary seat) (request seat) tag) next fun values =>
      ∀ seat : Seat, seat.size = size → values seat = resolutionOf size primary request seat ∧
        ∀ id ∈ request seat, ∃ owner, SoleOwner size primary id owner := by
  simp only [resolve_eq_hear]
  apply Decides.andThen decides_hear
  intro heard _ known
  have : Inhabited Resolution := ⟨[], ∅⟩
  apply (decides_ofExcept heeds).mono
  intro values resolved seat inGroup
  have resolution := resolved seat inGroup
  rw [known seat inGroup, resolutionFrom_answersTo inGroup] at resolution
  cases @outcomeOf_truthful size primary request seat inGroup with
  | inl answered =>
      rw [answered.1] at resolution
      exact ⟨(Except.ok.inj resolution).symm, answered.2⟩
  | inr refused =>
      rcases refused with ⟨error, refused, _⟩
      rw [refused] at resolution
      cases resolution

/-- The exchanges of a request for offsets are decided, and what a rank hears in them follows from what
all requested and own. -/
theorem decides_ask (counted : ∀ seat : Seat, seat.size = size →
      (requests seat).length = size.toNat) {next : Seat → Heard → Collective β} :
    Decides size (fun seat => ask seat (owned seat) (requests seat) tag) next fun values =>
      ∀ seat : Seat, seat.size = size → values seat = heardOf size owned requests seat := by
  apply Decides.andThen decides_allToAll
  rintro incoming _ ⟨rfl, _⟩
  apply Decides.andThen
  · apply @Decides.congr _ _ _ _ _ _ _ decides_allToAll
    intro seat inGroup
    rw [received_requests counted inGroup, List.map_map]
  rintro answers _ ⟨rfl, _⟩
  apply (decides_pure _).mono
  rintro values rfl seat inGroup
  dsimp only
  rw [received_requests counted inGroup, heardOf]
  congr 1
  exact received_map_all inGroup fun owner user =>
    locationsOf owner.rank (owned owner) (asked requests user owner).toList

theorem decides_offsets {next : Seat → OffsetAnswer → Collective β}
    (counted : ∀ seat : Seat, seat.size = size → (requests seat).length = size.toNat)
    (heeds : ∀ seat : Seat, seat.size = size → ∀ answer, Heeds seat (next seat answer)) :
    Decides size (fun seat => offsets seat (owned seat) (requests seat) tag) next
      fun _ => True := by
  refine Decides.congr ?_ fun seat inGroup => offsets_eq_ask seat (owned seat)
    ((counted seat inGroup).trans (congrArg UInt64.toNat inGroup.symm)) tag
  apply Decides.andThen (decides_ask counted)
  intro heard _ _
  have : Inhabited OffsetAnswer := ⟨[], ∅⟩
  exact (decides_ofExcept heeds).mono fun _ _ => trivial

end Ownership

/-! ## Summaries -/

/-- A gathering of summaries is decided: whoever is heard is understood. -/
theorem Gather.decides_summaries {summary : Seat → Summary}
    {next : Seat → SortedMap Rank Summary → Collective β} :
    Decides size (fun seat => summaries seat (summary seat) tag) next fun values =>
      ∀ seat : Seat, seat.size = size →
        values seat = .ofList ((Seat.all size).map fun other => (other.rank, summary other)) := by
  apply Decides.andThen decides_allGather
  intro all _ gathered
  have short : ∀ other : Seat, other.size = size → (summary other).encode.length ≤ maxWord :=
    fun other inGroup => length_le_of_fits (gathered other inGroup).2
  apply Decides.andThen
  · apply @decides_ok _ _ _ _ _ fun _ =>
      (Seat.all size).map fun other => (other.rank, summary other)
    intro seat inGroup
    rw [(gathered seat inGroup).1, Seat.zip_ranks inGroup fun other => (summary other).encode,
      List.mapM_map]
    apply mapM_eq_ok_map
    intro other member
    simp only [Function.comp, Summary.decode?_encode (short other (Seat.mem_all.1 member))]
    rfl
  intro entries _ same
  subst same
  apply (decides_pure _).mono
  intro values same seat _
  rw [same]

/-! ## Colorings -/

/-- The coloring of cells is decided, if what the ranks go on with needs every rank. -/
theorem PrimaryHalo.decides_color {adjacency : Seat → Adjacency} {primary : Seat → IdSet}
    {config : Seat → ColoringConfig} {next : Seat → PrimaryHalo → Collective β}
    (heeds : ∀ seat : Seat, seat.size = size → ∀ halo, Heeds seat (next seat halo)) :
    Decides size (fun seat => color seat (adjacency seat) (primary seat) (config seat)) next
      fun halos => ∀ seat, (halos seat).summary = (halos seat).coloring.summarize := by
  let parts (seat : Seat) : Decomposition := { adjacency, primary, config := config seat }
  refine Decides.congr ?_ fun seat _ => color_eq (parts seat) seat
  apply Decides.andThen Gather.decides_overlaps
  intro overlaps _ _
  apply Decides.andThen
  · apply decides_resolve
    intro seat inGroup near
    exact heeds_bind _ (heeds seat inGroup)
  intro near _ _
  apply Decides.andThen
  · apply decides_resolve
    intro seat inGroup all
    exact heeds_bind _ (heeds seat inGroup)
  intro all _ _
  apply decides_result heeds
  intro _ _
  apply (decides_pure _).mono
  intro halos same seat
  rw [same]
  rfl

namespace Derived

variable {adjacency : Seat → Adjacency} {config : Seat → ColoringConfig} {halos : Seat → PrimaryHalo}
  {dim : Nat} {next : Seat → Coloring × Summary → Collective β}

theorem decides_color
    (heeds : ∀ seat : Seat, seat.size = size → ∀ result, Heeds seat (next seat result)) :
    Decides size (fun seat => color seat (adjacency seat) (halos seat) dim) next fun results =>
      ∀ seat, (results seat).2 = (results seat).1.summarize := by
  apply decides_result heeds
  intro ids _
  apply decides_result heeds
  intro claims _
  apply Decides.andThen
  · apply decides_offsets
    · intro seat inGroup
      simp only [List.length_map, Seat.ranks, length_ranksBelow, inGroup]
    · intro seat inGroup _
      exact heeds_bind _ (heeds seat inGroup)
  intro answer _ _
  apply decides_result heeds
  intro records _
  apply (decides_pure _).mono
  intro results same seat
  rw [same]

theorem colorChecked_eq (seat : Seat) (adjacency : Adjacency) (config : ColoringConfig)
    (halo : PrimaryHalo) (dim : Nat) :
    colorChecked seat adjacency config halo dim =
      color seat adjacency halo dim >>= fun result =>
      Collective.ofExcept (PrimaryHalo.checkedBy config result.1) >>= fun _ => pure result := by
  rw [colorChecked]
  apply bind_congr
  intro result
  dsimp only [PrimaryHalo.checkedBy]
  cases config.validate <;> rfl

theorem decides_colorChecked
    (heeds : ∀ seat : Seat, seat.size = size → ∀ result, Heeds seat (next seat result)) :
    Decides size (fun seat => colorChecked seat (adjacency seat) (config seat) (halos seat) dim) next
      fun results => ∀ seat, (results seat).2 = (results seat).1.summarize := by
  simp only [colorChecked_eq]
  apply Decides.andThen
  · apply decides_color
    intro seat inGroup _
    exact heeds_bind _ (heeds seat inGroup)
  intro results _ summarized
  apply decides_result heeds
  intro _ _
  apply (decides_pure _).mono
  intro checked same seat
  rw [same]
  exact summarized seat

end Derived

end Subdomain

import Subdomain.Halo.Pass
import Subdomain.Proofs.Halo.Decision
import Subdomain.Proofs.Mesh.VertexMesh
import Subdomain.Proofs.Message.Phases
import Subdomain.Proofs.Ordered

/-!
# A pass is all or nothing

A rank records the requested spaces when it has all of them, and it has the last one only when every
rank has sent the summary of its own.  A rank that fails sends none.  So either every rank records what
all ranks have worked out, or no rank records anything.  The pass works on the context in place
(`Plan.performInPlace`), so this is about the contexts that it leaves, also on the ranks that fail.
-/

namespace Subdomain

open Exchange Subdomain.Group

namespace Pass

/-! ## One space -/

/-- A rank's coloring of a space, before summaries are gathered. -/
def colorKind (seat : Seat) (adjacency : Adjacency) (config : ColoringConfig) (halo : PrimaryHalo) :
    SpaceKind → Collective (Coloring × Summary)
  | .primary => pure (halo.coloring, halo.summary)
  | .entities dim => Derived.colorChecked seat adjacency config halo dim

theorem colorSpace_eq (seat : Seat) (adjacency : Adjacency) (config : ColoringConfig)
    (halo : PrimaryHalo) (kind : SpaceKind) :
    colorSpace seat adjacency config halo kind =
      colorKind seat adjacency config halo kind >>= fun result =>
      Gather.summaries seat result.2 Tags.summaries >>= fun summaries =>
      pure ⟨result.1, summaries⟩ := by
  cases kind <;> rfl

/-- What a rank records of a space: its own coloring, and the summary of everybody's. -/
def recorded (size : Rank) (colorings : Seat → Coloring) (seat : Seat) : SpaceColoring where
  coloring := colorings seat
  summaries := .ofList ((Seat.all size).map fun other => (other.rank, (colorings other).summarize))

/-- What the ranks of a group are given for a pass: each its adjacency, its cells and its context, and
all of them the same requests. -/
structure Plan where
  adjacency : Seat → Adjacency
  primary : Seat → IdSet
  contexts : Seat → Context
  requests : List SpaceRequest

namespace Plan

variable (plan : Plan) (patience : Patience) (size : Rank) (halos : Seat → PrimaryHalo) (seat : Seat)

/-- The settings of a rank. -/
def config : ColoringConfig := (plan.contexts seat).config.coloring

/-- The pass, with the context as a value. -/
def perform : Collective (Context × SortedMap SpaceId SpaceColoring) :=
  addColorings seat (plan.adjacency seat) (plan.contexts seat) plan.requests (plan.primary seat)

/-- The coloring of the cells alone. -/
def colorCells : Collective PrimaryHalo :=
  PrimaryHalo.color seat (plan.adjacency seat) (plan.primary seat) (plan.config seat)

/-- The colorings of all requested spaces, which are not recorded yet. -/
def colorAll : Collective (SortedMap SpaceId SpaceColoring) :=
  plan.colorCells seat >>= fun halo =>
  colorSpaces seat (plan.adjacency seat) (plan.config seat) halo plan.requests >>= fun colorings =>
  pure (.ofList colorings)

/-- The pass in place: what it reports, and the context that it leaves. -/
def performInPlace : Program (Except Error (SortedMap SpaceId SpaceColoring) × Context) :=
  (addColoringsInPlace seat (plan.adjacency seat) plan.requests (plan.primary seat)).run.run
    (plan.contexts seat)

/-- The coloring of one space, before summaries are gathered. -/
def colorKind (kind : SpaceKind) : Collective (Coloring × Summary) :=
  Pass.colorKind seat (plan.adjacency seat) (plan.config seat) (halos seat) kind

/-- These are the colorings of a space that the group works out from the cells. -/
def Colors (kind : SpaceKind) (colorings : Seat → Coloring) : Prop :=
  Completes patience size (fun seat => plan.colorKind halos seat kind)
    fun seat => (colorings seat, (colorings seat).summarize)

end Plan

variable {β : Type} {size : Rank} {patience : Patience} {plan : Plan} {halos : Seat → PrimaryHalo}
  {requests : List SpaceRequest} {spaces : List (SpaceRequest × (Seat → Coloring))} {seat : Seat}

theorem heeds_summaries (summary : Summary) (tag : Tag) (next : SortedMap Rank Summary → Collective β) :
    Heeds seat (Gather.summaries seat summary tag >>= next) := by
  apply Heeds.andThen
  exact (heeds_allGather _).andThen _

/-- A rank gets through no space alone, whatever it goes on with. -/
theorem heeds_colorSpace (adjacency : Adjacency) (config : ColoringConfig) (halo : PrimaryHalo)
    (kind : SpaceKind) (next : SpaceColoring → Collective β) :
    Heeds seat (colorSpace seat adjacency config halo kind >>= next) := by
  apply Heeds.andThen
  rw [colorSpace_eq]
  apply heeds_bind
  intro result
  exact heeds_summaries _ _ _

theorem decides_colorKind {kind : SpaceKind} {next : Seat → Coloring × Summary → Collective β}
    (summarized : ∀ seat, (halos seat).summary = (halos seat).coloring.summarize)
    (heeds : ∀ seat : Seat, seat.size = size → ∀ result, Heeds seat (next seat result)) :
    Decides size (fun seat => plan.colorKind halos seat kind) next fun results =>
      ∀ seat, (results seat).2 = (results seat).1.summarize := by
  cases kind with
  | primary =>
      apply (decides_pure _).mono
      intro results same
      subst same
      exact summarized
  | entities dim => exact Derived.decides_colorChecked heeds

/-- The coloring of a space is decided for the group, and what is recorded is what the ranks have worked
out. -/
theorem decides_colorSpace {kind : SpaceKind} {next : Seat → SpaceColoring → Collective β}
    (summarized : ∀ seat, (halos seat).summary = (halos seat).coloring.summarize) :
    Decides size
      (fun seat => colorSpace seat (plan.adjacency seat) (plan.config seat) (halos seat) kind) next
      fun results => ∃ colorings, plan.Colors patience size halos kind colorings ∧
        ∀ seat : Seat, seat.size = size → results seat = recorded size colorings seat := by
  have split : ∀ seat, colorSpace seat (plan.adjacency seat) (plan.config seat) (halos seat) kind =
      plan.colorKind halos seat kind >>= _ := fun seat => colorSpace_eq seat _ _ _ kind
  refine Decides.congr ?_ fun seat _ => split seat
  apply Decides.andThen
  · apply decides_colorKind summarized
    intro seat _ result
    rw [bind_assoc]
    exact heeds_summaries _ _ _
  intro colored settles summaries
  apply Decides.andThen Gather.decides_summaries
  intro gathered _ heard
  apply (decides_pure _).mono
  intro results same
  subst same
  refine ⟨fun seat => (colored seat).1, ?_, ?_⟩
  · apply Settles.completes
    apply settles.congr fun _ _ => rfl
    intro seat _
    rw [← summaries seat]
  · intro seat inGroup
    simp only [heard seat inGroup, recorded, summaries]

/-! ## All spaces -/

/-- Colorings of the requested spaces, one for each request. -/
structure Colored (plan : Plan) (patience : Patience) (size : Rank) (halos : Seat → PrimaryHalo)
    (requests : List SpaceRequest) (spaces : List (SpaceRequest × (Seat → Coloring))) : Prop where
  requested : spaces.map Prod.fst = requests
  colors : ∀ space ∈ spaces, plan.Colors patience size halos space.1.kind space.2

/-- What a rank records of several spaces. -/
def recordedAll (size : Rank) (spaces : List (SpaceRequest × (Seat → Coloring))) (seat : Seat) :
    List (SpaceId × SpaceColoring) :=
  spaces.map fun space => (space.1.id, recorded size space.2 seat)

/-- The colorings of all spaces are decided: by induction on the requests. -/
theorem decides_colorSpaces {next : Seat → List (SpaceId × SpaceColoring) → Collective β}
    (summarized : ∀ seat, (halos seat).summary = (halos seat).coloring.summarize) :
    Decides size
      (fun seat => colorSpaces seat (plan.adjacency seat) (plan.config seat) (halos seat) requests)
      next fun results => ∃ spaces, Colored plan patience size halos requests spaces ∧
        ∀ seat : Seat, seat.size = size → results seat = recordedAll size spaces seat := by
  induction requests generalizing next with
  | nil =>
      apply (decides_pure _).mono
      intro results same
      subst same
      exact ⟨[], ⟨rfl, nofun⟩, fun _ _ => rfl⟩
  | cons request rest ih =>
      apply Decides.andThen (decides_colorSpace summarized)
      intro first _ done
      rcases done with ⟨colorings, colors, firstRecorded⟩
      apply Decides.andThen ih
      intro others _ done
      rcases done with ⟨spaces, colored, othersRecorded⟩
      apply (decides_pure _).mono
      intro results same
      subst same
      refine ⟨(request, colorings) :: spaces, ⟨?_, ?_⟩, ?_⟩
      · rw [List.map_cons, colored.requested]
      · exact List.forall_mem_cons.2 ⟨colors, colored.colors⟩
      · intro seat inGroup
        simp only [firstRecorded seat inGroup, othersRecorded seat inGroup, recordedAll,
          List.map_cons]

/-- The colorings of all spaces are decided, since no rank gets through its first space alone. -/
theorem decides_colorAll (nonempty : plan.requests ≠ [])
    {next : Seat → SortedMap SpaceId SpaceColoring → Collective β} :
    Decides size plan.colorAll next fun results => ∃ halos spaces,
      Completes patience size plan.colorCells halos ∧
      Colored plan patience size halos plan.requests spaces ∧
      ∀ seat : Seat, seat.size = size → results seat = .ofList (recordedAll size spaces seat) := by
  apply Decides.andThen
  · apply PrimaryHalo.decides_color
    intro seat _ halo
    cases requests : plan.requests with
    | nil => exact absurd requests nonempty
    | cons request rest =>
        simp only [colorSpaces, bind_assoc]
        exact heeds_colorSpace _ _ _ _ _
  intro halos settles summarized
  apply Decides.andThen (decides_colorSpaces summarized)
  intro colorings _ done
  rcases done with ⟨spaces, colored, same⟩
  apply (decides_pure _).mono
  intro results recorded
  subst recorded
  refine ⟨halos, spaces, settles.completes, colored, ?_⟩
  intro seat inGroup
  simp only [same seat inGroup]

/-! ## Recording -/

/-- A context with some spaces recorded. -/
def record (context : Context) (colorings : SortedMap SpaceId SpaceColoring) : Context :=
  colorings.toList.foldl (fun context entry => context.addColoring entry.1 entry.2) context

/-- What a rank reports of its colorings, and the context that it has then. -/
def conclude (context : Context) :
    Except Error (SortedMap SpaceId SpaceColoring) →
      Except Error (SortedMap SpaceId SpaceColoring) × Context
  | .ok colorings => (.ok colorings, record context colorings)
  | .error error => (.error error, context)

/-- A step that leaves the context alone is followed by the others unless it fails. -/
theorem run_ofCollective_bind {α : Type} (call : Collective α) (next : α → Contextual β)
    (context : Context) :
    (Contextual.ofCollective call >>= next).run.run context =
      call.run.bind fun outcome => match outcome with
        | .ok value => (next value).run.run context
        | .error error => .done (.error error, context) := by
  refine (Program.bind_bind call.run _ _).trans ?_
  congr 1
  funext outcome
  cases outcome with
  | ok value => rfl
  | error error => rfl

theorem run_recordInPlace (colorings : List (SpaceId × SpaceColoring)) (context : Context) :
    (recordInPlace colorings).run.run context =
      .done (.ok (), colorings.foldl
        (fun context entry => context.addColoring entry.1 entry.2) context) := by
  induction colorings generalizing context with
  | nil => rfl
  | cons entry rest ih => exact ih (context.addColoring entry.1 entry.2)

/-- All that a pass does to the context comes after all that can fail. -/
theorem performInPlace_eq (plan : Plan) (seat : Seat) :
    plan.performInPlace seat = (plan.colorAll seat).run.bind fun outcome =>
      .done (conclude (plan.contexts seat) outcome) := by
  rw [Plan.performInPlace, addColoringsInPlace]
  refine (run_ofCollective_bind _ _ _).trans ?_
  refine .trans ?_ (Program.bind_bind (plan.colorCells seat).run _ _).symm
  congr 1
  funext outcome
  cases outcome with
  | error error => rfl
  | ok halo =>
      refine (run_ofCollective_bind _ _ _).trans ?_
      refine .trans ?_ (Program.bind_bind _ _ _).symm
      congr 1
      funext outcome
      cases outcome with
      | error error => rfl
      | ok colorings =>
          have recorded := run_recordInPlace (SortedMap.ofList colorings).toList (plan.contexts seat)
          dsimp only
          simp only [ExceptT.run_bind, StateT.run_bind, recorded]
          rfl

theorem perform_eq (plan : Plan) (seat : Seat) :
    plan.perform seat = plan.colorAll seat >>= fun colorings =>
      pure (record (plan.contexts seat) colorings, colorings) := by
  apply ExceptT.ext
  refine (congrArg (Program.bind · _) (performInPlace_eq plan seat)).trans ?_
  refine (Program.bind_bind _ _ _).trans ?_
  refine congrArg (Program.bind (plan.colorAll seat).run) ?_
  funext outcome
  cases outcome with
  | error error => rfl
  | ok colorings => rfl

/-- A pass over some spaces is decided for the group. -/
theorem decides_perform (nonempty : plan.requests ≠ [])
    {next : Seat → Context × SortedMap SpaceId SpaceColoring → Collective β} :
    Decides size plan.perform next fun results => ∃ halos spaces,
      Completes patience size plan.colorCells halos ∧
      Colored plan patience size halos plan.requests spaces ∧
      ∀ seat : Seat, seat.size = size →
        (results seat).1 = record (plan.contexts seat) (.ofList (recordedAll size spaces seat)) := by
  refine Decides.congr ?_ fun seat _ => perform_eq plan seat
  apply Decides.andThen (decides_colorAll nonempty)
  intro colorings _ done
  rcases done with ⟨halos, spaces, cells, colored, same⟩
  apply (decides_pure _).mono
  intro results recorded
  subst recorded
  refine ⟨halos, spaces, cells, colored, ?_⟩
  intro seat inGroup
  simp only [same seat inGroup]

/-! ## The contexts -/

/-- Recording spaces changes nothing else. -/
theorem record_eq (context : Context) (colorings : SortedMap SpaceId SpaceColoring) :
    record context colorings =
      { context with
        spaces := colorings.toList.foldl
          (fun spaces entry => spaces.insert entry.1 entry.2) context.spaces } := by
  rw [record]
  induction colorings.toList generalizing context with
  | nil => rfl
  | cons entry rest ih => exact ih (context.addColoring entry.1 entry.2)

/-- The request that counts for a space: the last one. -/
def requestFor? (requests : List SpaceRequest) (id : SpaceId) : Option SpaceRequest :=
  requests.reverse.find? (·.id == id)

theorem requestFor?_map_fst (spaces : List (SpaceRequest × (Seat → Coloring))) (id : SpaceId) :
    requestFor? (spaces.map Prod.fst) id =
      (spaces.reverse.find? (·.1.id == id)).map Prod.fst := by
  rw [requestFor?, ← List.map_reverse, List.find?_map]
  rfl

theorem get?_record_recordedAll (context : Context) (id : SpaceId) :
    (record context (.ofList (recordedAll size spaces seat))).spaces.get? id =
      ((spaces.reverse.find? (·.1.id == id)).map fun space => recorded size space.2 seat).or
        (context.spaces.get? id) := by
  rw [record_eq, SortedMap.get?_foldl_insert_toList, SortedMap.get?_ofList, recordedAll,
    ← List.map_reverse, List.find?_map, Option.map_map]
  rfl

/-- The contexts after a pass: for every requested space a rank has its own coloring, as the group works
it out, and the summaries of everybody's.  Nothing else has changed. -/
structure Recorded (plan : Plan) (patience : Patience) (size : Rank) (halos : Seat → PrimaryHalo)
    (after : Seat → Context) : Prop where
  cells : Completes patience size plan.colorCells halos
  requested : ∀ id request, requestFor? plan.requests id = some request →
    ∃ colorings, plan.Colors patience size halos request.kind colorings ∧
      ∀ seat : Seat, seat.size = size →
        (after seat).spaces.get? id = some (recorded size colorings seat)
  others : ∀ id, requestFor? plan.requests id = none → ∀ seat : Seat, seat.size = size →
    (after seat).spaces.get? id = (plan.contexts seat).spaces.get? id
  rest : ∀ seat : Seat, seat.size = size →
    after seat = { plan.contexts seat with spaces := (after seat).spaces }

theorem recorded_of_colored {after : Seat → Context}
    (cells : Completes patience size plan.colorCells halos)
    (colored : Colored plan patience size halos plan.requests spaces)
    (same : ∀ seat : Seat, seat.size = size →
      after seat = record (plan.contexts seat) (.ofList (recordedAll size spaces seat))) :
    Recorded plan patience size halos after := by
  have looked : ∀ seat : Seat, seat.size = size → ∀ id, (after seat).spaces.get? id = _ :=
    fun seat inGroup id => same seat inGroup ▸ get?_record_recordedAll _ _
  refine ⟨cells, ?_, ?_, ?_⟩
  · intro id request counts
    rw [← colored.requested, requestFor?_map_fst, Option.map_eq_some_iff] at counts
    rcases counts with ⟨space, found, rfl⟩
    refine ⟨space.2, colored.colors _ (List.mem_reverse.1 (List.mem_of_find?_eq_some found)), ?_⟩
    intro seat inGroup
    rw [looked seat inGroup, found]
    rfl
  · intro id other seat inGroup
    rw [← colored.requested, requestFor?_map_fst, Option.map_eq_none_iff] at other
    rw [looked seat inGroup, other]
    rfl
  · intro seat inGroup
    rw [same seat inGroup, record_eq]

/-- A rank's context in a group that makes a pass: once the rank has ended, what the pass has left,
whether the pass has failed or not.  A rank that still sends or waits has recorded nothing
(`performInPlace_eq`). -/
def contextIn (group : Group (Except Error (SortedMap SpaceId SpaceColoring) × Context))
    (seat : Seat) (before : Context) : Context :=
  match group.values[seat.rank.toNat]? with
  | some (some (_, after)) => after
  | _ => before

variable {group : Group (Except Error (SortedMap SpaceId SpaceColoring) × Context)}

/-- What a rank of a pass goes on with after its coloring: it only ends. -/
def closing (plan : Plan) (seat : Seat) (outcome : Except Error (SortedMap SpaceId SpaceColoring)) :
    Program (Except Error (SortedMap SpaceId SpaceColoring) × Context) :=
  .done (conclude (plan.contexts seat) outcome)

/-- The ranks of a group that makes a pass are as far with their colorings as those of a group that makes
nothing else. -/
theorem exists_coloring (reached : Reaches Move (ofCall size plan.performInPlace) group) :
    ∃ shorter, Reaches Move (ofCall size fun seat => (plan.colorAll seat).run) shorter ∧
      Extends size (closing plan) shorter group := by
  have concludes : Concludes size (fun seat => (plan.colorAll seat).run) (closing plan) :=
    fun _ _ _ _ _ _ => ⟨_, rfl⟩
  rw [ofCall_congr fun seat _ => performInPlace_eq plan seat] at reached
  exact concludes.restrict reached

variable {shorter : Group (Except Error (SortedMap SpaceId SpaceColoring))}

/-- A rank that has not succeeded has the context that it was given, and if it has failed, that is the one
that the pass has left. -/
theorem contextIn_eq_self (extension : Extends size (closing plan) shorter group)
    (inGroup : seat.size = size)
    (unsuccessful : ∀ colorings, shorter.programs[seat.rank.toNat]? ≠ some (.done (.ok colorings))) :
    contextIn group seat (plan.contexts seat) = plan.contexts seat := by
  rw [contextIn]
  split
  · next found =>
    rcases (extension.outcome inGroup).1 (getElem?_values_eq_some_iff.1 found) with
      ⟨outcome, ended, same⟩
    cases outcome with
    | ok colorings => exact absurd ended (unsuccessful colorings)
    | error error =>
        cases same
        rfl
  · rfl

/-- Where the colorings of the group settle, a rank that has ended its pass has recorded its own. -/
theorem eq_conclude_of_settles {colorings : Seat → SortedMap SpaceId SpaceColoring}
    (extension : Extends size (closing plan) shorter group)
    (moves : Reaches Move (ofCall size fun seat => (plan.colorAll seat).run) shorter)
    (settles : Settles size (fun seat => (plan.colorAll seat).run) fun seat => .ok (colorings seat))
    (inGroup : seat.size = size) {result : Except Error (SortedMap SpaceId SpaceColoring) × Context}
    (found : group.values[seat.rank.toNat]? = some (some result)) :
    result = conclude (plan.contexts seat) (.ok (colorings seat)) := by
  rcases (extension.outcome inGroup).1 (getElem?_values_eq_some_iff.1 found) with
    ⟨outcome, ended, concluded⟩
  rcases settles.outcome moves ended with ⟨other, located, rfl⟩
  rw [Seat.getElem?_all inGroup] at located
  cases located
  exact (Program.done.inj concluded).symm

/-- A pass over some spaces is all or nothing, whatever the ranks are given and under any schedule.  If
a rank fails anywhere, no rank's context is ever changed.  Once all ranks have succeeded, everything is
recorded. -/
theorem perform_allOrNothing (size : Rank) (patience : Patience) (nonempty : plan.requests ≠ [])
    (reached : Reaches patience.relation (ofCall size plan.performInPlace) group) :
    ((∃ (position : Nat) (error : Error) (context : Context),
        group.values[position]? = some (some (.error error, context))) →
      ∀ other, Reaches patience.relation (ofCall size plan.performInPlace) other →
        ∀ seat : Seat, seat.size = size →
          contextIn other seat (plan.contexts seat) = plan.contexts seat) ∧
    ((∀ seat : Seat, seat.size = size → ∃ value context,
        group.values[seat.rank.toNat]? = some (some (.ok value, context))) →
      ∃ halos, Recorded plan patience size halos
        fun seat => contextIn group seat (plan.contexts seat)) := by
  have decided := @decides_colorAll _ size patience plan nonempty fun _ => pure
  rcases exists_coloring reached.impatient with ⟨shorter, moves, extension⟩
  cases decided.settles_or_strands with
  | inl settled =>
      rcases settled with ⟨results, settles, halos, spaces, cells, colored, same⟩
      constructor
      · intro failure
        rcases failure with ⟨position, error, context, failed⟩
        rcases extension.relocate_back (getElem?_values_eq_some_iff.1 failed) with
          ⟨seat, _, inGroup, rfl, _⟩
        cases eq_conclude_of_settles extension moves settles inGroup failed
      · intro succeeded
        refine ⟨halos, recorded_of_colored cells colored ?_⟩
        intro seat inGroup
        rcases succeeded seat inGroup with ⟨value, context, found⟩
        cases eq_conclude_of_settles extension moves settles inGroup found
        rw [contextIn, found]
        exact congrArg (record (plan.contexts seat)) (same seat inGroup)
  | inr strands =>
      constructor
      · intro _ other reachedToo seat inGroup
        rcases exists_coloring reachedToo.impatient with ⟨shorter, moves, extension⟩
        exact contextIn_eq_self extension inGroup fun _ => strands.not_ok moves
      · intro succeeded
        have stranded := strands
        rcases stranded with ⟨failing, inGroup, _⟩
        rcases succeeded failing inGroup with ⟨value, context, found⟩
        rcases (extension.outcome inGroup).1 (getElem?_values_eq_some_iff.1 found) with
          ⟨outcome, ended, concluded⟩
        cases outcome with
        | ok colorings => exact absurd ended (strands.not_ok moves)
        | error error => cases concluded

/-- Two quadrilaterals that share an edge; their cells and their vertices are to be colored. -/
def twoQuadrilaterals (primary : Seat → IdSet) : Plan where
  adjacency := fun _ => (VertexMesh.ofCells 2 [[0, 1, 4, 3], [1, 2, 5, 4]]).adjacency
  primary := primary
  contexts := fun seat =>
    { rank := seat.rank, size := seat.size, config := {}, spaces := ∅, fields := ∅ }
  requests := [⟨7, .primary⟩, ⟨8, .entities 0⟩]

/-- With one cell on each of two ranks all is recorded.  With the second cell on no rank the first rank
fails, and nothing is ever recorded on either. -/
theorem perform_allOrNothing_twoQuadrilaterals :
    let shared := twoQuadrilaterals fun seat => .singleton seat.rank
    let lacking := twoQuadrilaterals fun seat => if seat.rank = 0 then .singleton 0 else ∅
    (∃ halos, Recorded shared .limited 2 halos fun seat =>
      contextIn (runFor 200 (ofCall 2 shared.performInPlace)) seat (shared.contexts seat)) ∧
    ∀ other, Reaches Move (ofCall 2 lacking.performInPlace) other →
      ∀ seat : Seat, seat.size = 2 →
        contextIn other seat (lacking.contexts seat) = lacking.contexts seat := by
  intro shared lacking
  constructor
  · apply (perform_allOrNothing 2 .limited (List.cons_ne_nil _ _) (reaches_runFor 200 _)).2
    have succeeded : ∀ position : Fin 2,
        ((runFor 200 (ofCall 2 shared.performInPlace)).values[position.val]?.any
          fun value => value.any fun result => result.1.isOk) = true := by
      decide +kernel
    intro seat inGroup
    have inside : seat.rank.toNat < 2 := UInt64.lt_iff_toNat_lt.1 (inGroup ▸ seat.rank_lt)
    rcases (Option.any_eq_true _ _).1 (succeeded ⟨_, inside⟩) with ⟨value, found, ended⟩
    rcases (Option.any_eq_true _ _).1 ended with ⟨⟨outcome, context⟩, rfl, isOk⟩
    cases outcome with
    | error error => cases isOk
    | ok value => exact ⟨value, context, found⟩
  · apply (perform_allOrNothing 2 .limited (List.cons_ne_nil _ _) (reaches_runFor 200 _)).1
    have failed :
        ((runFor 200 (ofCall 2 lacking.performInPlace)).values[0]?.any
          fun value => value.any fun result => !result.1.isOk) = true := by
      decide +kernel
    rcases (Option.any_eq_true _ _).1 failed with ⟨value, found, ended⟩
    rcases (Option.any_eq_true _ _).1 ended with ⟨⟨outcome, context⟩, rfl, isError⟩
    cases outcome with
    | error error => exact ⟨0, error, context, found⟩
    | ok value => cases isError

end Pass

end Subdomain

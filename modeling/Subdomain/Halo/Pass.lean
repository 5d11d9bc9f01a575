import Subdomain.Context
import Subdomain.Halo.Derived
import Subdomain.Halo.Partition

/-!
# Coloring passes

A pass colors the cells once, derives every requested index space from them, gathers the summaries
and records all of it in the context. The context is changed in place: when a pass ends, in whatever
way, it has what was recorded until then. Nothing is recorded if any space fails.
-/

namespace Subdomain

/-- How an index space is colored. -/
inductive SpaceKind where
  /-- The cells themselves. -/
  | primary
  /-- The entities of a dimension, owned by the lowest rank that owns a referencing cell. -/
  | entities (dim : Nat)
  deriving DecidableEq, Repr

/-- A requested index space. -/
structure SpaceRequest where
  id : SpaceId
  kind : SpaceKind
  deriving DecidableEq, Repr

/-- A step of a rank that may fail, and that may change the rank's context before it does. -/
abbrev Contextual (α : Type) := ExceptT Error (StateT Context Program) α

/-- A step that leaves the context alone. -/
def Contextual.ofCollective {α : Type} (call : Collective α) : Contextual α :=
  ExceptT.mk (StateT.lift call.run)

namespace Pass

/-- Color the cells that an assignment ships here. -/
def colorAssignment (seat : Seat) (adjacency : Adjacency) (assignment : Assignment)
    (config : ColoringConfig) : Collective PrimaryHalo := do
  let primary ← assignment.redistribute seat
  PrimaryHalo.color seat adjacency primary config

/-- The coloring of one requested space, with every rank's summary. -/
def colorSpace (seat : Seat) (adjacency : Adjacency) (config : ColoringConfig)
    (halo : PrimaryHalo) (kind : SpaceKind) : Collective SpaceColoring := do
  let (coloring, summary) ← match kind with
    | .primary => pure (halo.coloring, halo.summary)
    | .entities dim => Derived.colorChecked seat adjacency config halo dim
  let summaries ← Gather.summaries seat summary Tags.summaries
  return { coloring, summaries }

/-- The colorings of all requested spaces, in the order of the requests. -/
def colorSpaces (seat : Seat) (adjacency : Adjacency) (config : ColoringConfig)
    (halo : PrimaryHalo) : List SpaceRequest → Collective (List (SpaceId × SpaceColoring))
  | [] => pure []
  | request :: rest => do
    let coloring ← colorSpace seat adjacency config halo request.kind
    let colorings ← colorSpaces seat adjacency config halo rest
    return (request.id, coloring) :: colorings

/-- Record colorings in the context, one by one. -/
def recordInPlace (colorings : List (SpaceId × SpaceColoring)) : Contextual Unit :=
  colorings.forM fun (space, coloring) => modify (·.addColoring space coloring)

/-- Color all requested spaces and then record them in the context. Gives what was recorded; of two
requests for one space the later counts. -/
def addColoringsInPlace (seat : Seat) (adjacency : Adjacency) (requests : List SpaceRequest)
    (primary : IdSet) : Contextual (SortedMap SpaceId SpaceColoring) := do
  let config := (← get).config.coloring
  let halo ← .ofCollective (PrimaryHalo.color seat adjacency primary config)
  let colorings := SortedMap.ofList
    (← .ofCollective (colorSpaces seat adjacency config halo requests))
  recordInPlace colorings.toList
  return colorings

/-- Make a pass from a given context. Gives the context after it and what was recorded. -/
def addColorings (seat : Seat) (adjacency : Adjacency) (context : Context)
    (requests : List SpaceRequest) (primary : IdSet) :
    Collective (Context × SortedMap SpaceId SpaceColoring) := ExceptT.mk do
  let (outcome, after) ← (addColoringsInPlace seat adjacency requests primary).run.run context
  return outcome.map fun colorings => (after, colorings)

end Pass

end Subdomain

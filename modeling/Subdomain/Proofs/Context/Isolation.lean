import Mathlib.Logic.Function.Basic
import Subdomain.Proofs.Context.Operations

/-!
# Fields of one context

The fields of a context have nothing to do with each other.  From the operations and their replies alone
the history of a context says which fields were registered, over which layouts, and which drafts each of
them took.  A field is what its own drafts make of an empty one, whatever was done to the others and to
the spaces meanwhile.
-/

namespace Subdomain

open ValueFamily (Carrier name)

variable {ι : Type} [ValueFamily ι]

/-! ## Fields that stand alone -/

namespace Field

variable {type : ι}

/-- The field after a commit that is asked for. -/
def submit (field : Field type) (submission : Submission (Carrier type)) :
    Except Error (Field type) := do
  let draft ← submission.source.draftFor field
  return (← field.commit draft submission.memory submission.scratch).1

theorem submit_eq_ok {field next : Field type} {submission : Submission (Carrier type)} :
    field.submit submission = .ok next ↔
      ∃ draft stats, submission.source.draftFor field = .ok draft ∧
        field.commit draft submission.memory submission.scratch = .ok (next, stats) := by
  rw [submit, bind_eq_ok]
  simp only [bind_eq_ok]
  constructor
  · rintro ⟨draft, drafted, ⟨_, stats⟩, committed, same⟩
    cases same
    exact ⟨draft, stats, drafted, committed⟩
  · rintro ⟨draft, stats, drafted, committed⟩
    exact ⟨draft, drafted, _, committed, rfl⟩

end Field

/-- What has been done to a field: how it was registered, and the commits to it since. -/
structure Registration (ι : Type) [ValueFamily ι] where
  type : ι
  name : String
  space : SpaceId
  layout : Layout
  /-- The memory that the empty field was given. -/
  memory : Memory
  commits : List (Submission (Carrier type)) := []

namespace Registration

variable {registration : Registration ι} {config : SparseConfig}

/-- The field that these commits make of an empty one, with nothing else around. -/
def standalone (registration : Registration ι) (config : SparseConfig) :
    Except Error (Field registration.type) := do
  let field ← Field.create registration.name registration.space registration.layout config
    registration.memory
  registration.commits.foldlM Field.submit field

/-- What a field shows of its registration: the layout it was made with, and how often it was
committed to. -/
structure Describes (registration : Registration ι) (field : Field registration.type) : Prop where
  name : field.name = registration.name
  space : field.space = registration.space
  layout : field.store.layout = registration.layout
  epoch : field.epoch = registration.commits.length

theorem describes_create {type : ι} {name : String} {space : SpaceId} {layout : Layout}
    {memory : Memory} {field : Field type}
    (created : Field.create name space layout config memory = .ok field) :
    Describes { type, name, space, layout, memory } field := by
  obtain ⟨⟨⟩, _, created⟩ := bind_eq_ok.1 created
  obtain ⟨store, made, created⟩ := bind_eq_ok.1 created
  cases created
  exact ⟨rfl, rfl, (Store.create_created made).sameLayout, rfl⟩

/-- One commit more. -/
def commit (registration : Registration ι)
    (submission : Submission (Carrier registration.type)) : Registration ι :=
  { registration with commits := registration.commits ++ [submission] }

theorem Describes.submit {field next : Field registration.type}
    {submission : Submission (Carrier registration.type)} (describes : registration.Describes field)
    (committed : field.submit submission = .ok next) :
    (registration.commit submission).Describes next := by
  obtain ⟨draft, _, _, committed⟩ := Field.submit_eq_ok.1 committed
  obtain ⟨⟨store, _⟩, stored, committed⟩ := bind_eq_ok.1 committed
  cases committed
  exact {
    name := describes.name
    space := describes.space
    layout := (Store.layout_of_commit stored).trans describes.layout
    epoch := by
      change _ = (registration.commits ++ [submission]).length
      rw [List.length_append, ← describes.epoch]
      rfl }

theorem standalone_commit {field next : Field registration.type}
    {submission : Submission (Carrier registration.type)}
    (stands : registration.standalone config = .ok field)
    (committed : field.submit submission = .ok next) :
    (registration.commit submission).standalone config = .ok next := by
  obtain ⟨first, created, made⟩ := bind_eq_ok.1 stands
  refine bind_eq_ok.2 ⟨first, created, ?_⟩
  change (registration.commits ++ [submission]).foldlM Field.submit first = .ok next
  rw [List.foldlM_append]
  refine bind_eq_ok.2 ⟨field, made, ?_⟩
  rw [List.foldlM_cons, committed]
  rfl

/-- A field is what its registration makes by itself. -/
inductive Stands (config : SparseConfig) (registration : Registration ι) : AnyField ι → Prop where
  | intro (field : Field registration.type) (standalone : registration.standalone config = .ok field)
      (describes : registration.Describes field) : Stands config registration ⟨registration.type, field⟩

theorem Stands.create {type : ι} {name : String} {space : SpaceId} {layout : Layout}
    {memory : Memory} {field : Field type}
    (created : Field.create name space layout config memory = .ok field) :
    Stands config { type, name, space, layout, memory } ⟨type, field⟩ :=
  .intro field (bind_eq_ok.2 ⟨field, created, rfl⟩) (describes_create created)

variable [DecidableEq ι]

/-- One commit more, if it was made at the type of the field. -/
def receive (registration : Registration ι) (type : ι) (submission : Submission (Carrier type)) :
    Registration ι :=
  if same : type = registration.type then registration.commit (same ▸ submission) else registration

theorem Stands.receive {type : ι} {field next : Field type}
    {submission : Submission (Carrier type)} (stands : registration.Stands config ⟨type, field⟩)
    (committed : field.submit submission = .ok next) :
    (registration.receive type submission).Stands config ⟨type, next⟩ := by
  cases stands with
  | intro field standalone describes =>
      rw [Registration.receive, dif_pos rfl]
      exact @Stands.intro _ _ config (registration.commit submission) next
        (standalone_commit standalone committed) (describes.submit committed)

end Registration

/-! ## Histories -/

/-- What the operations on a context say of it. -/
structure History (ι : Type) [ValueFamily ι] where
  /-- The layouts of the spaces, as last colored. -/
  layouts : SpaceId → Option Layout := fun _ => none
  /-- The fields in the order of their registration. -/
  registrations : List (Registration ι) := []

namespace History

/-- The layout of a space from now on. -/
def color (history : History ι) (space : SpaceId) (layout : Layout) : History ι :=
  { history with layouts := Function.update history.layouts space (some layout) }

/-- One registration more. -/
def register (history : History ι) (registration : Registration ι) : History ι :=
  { history with registrations := history.registrations ++ [registration] }

/-- The registration under the next number, and the earlier ones under theirs. -/
theorem getElem?_register (history : History ι) (registration : Registration ι) (id : Nat) :
    (history.register registration).registrations[id]? =
      if id = history.registrations.length then some registration else history.registrations[id]? := by
  rw [register]
  rcases Nat.lt_trichotomy id history.registrations.length with earlier | next | later
  · rw [if_neg earlier.ne, List.getElem?_append_left earlier]
  · rw [if_pos next, next, List.getElem?_concat_length]
  · rw [if_neg later.ne', List.getElem?_eq_none later.le, List.getElem?_eq_none]
    rwa [List.length_append]

variable [DecidableEq ι]

/-- One commit more to a field. -/
def commit (history : History ι) (type : ι) (id : Nat) (submission : Submission (Carrier type)) :
    History ι :=
  { history with registrations := history.registrations.modify id (·.receive type submission) }

/-- The commit with the registration of its field, and the others as they were. -/
theorem getElem?_commit {history : History ι} {type : ι} {id : Nat} {registration : Registration ι}
    {submission : Submission (Carrier type)}
    (noted : history.registrations[id]? = some registration) (other : Nat) :
    (history.commit type id submission).registrations[other]? =
      if other = id then some (registration.receive type submission)
      else history.registrations[other]? := by
  rw [commit]
  split
  next same =>
    rw [same, List.getElem?_modify_eq, noted]
    rfl
  next apart => exact List.getElem?_modify_ne _ _ (Ne.symm apart)

/-- Take note of an operation that succeeded. -/
def note (history : History ι) : Operation ι → History ι
  | .addColoring space coloring => history.color space coloring.coloring.layout
  | .register type name space memory =>
    match history.layouts space with
    | some layout => history.register { type, name, space, layout, memory }
    | none => history
  | .lookUp _ _ => history
  | .commit type id submission => history.commit type id submission

/-- Take note of an operation.  One that failed is nothing to note. -/
def record (history : History ι) (operation : Operation ι) : Except Error (Reply ι) → History ι
  | .error _ => history
  | .ok _ => history.note operation

/-- Take note of operations one after the other. -/
def recordAll (history : History ι) (log : Log ι) : History ι :=
  log.foldl (fun history (operation, reply) => history.record operation reply) history

/-- A history depends on which operations succeeded, not on what they reported. -/
theorem recordAll_eq (history : History ι) (log : Log ι) :
    history.recordAll log = ((log.map Prod.fst).zip (log.map fun entry => entry.2.isOk)).foldl
      (fun history (operation, succeeded) =>
        if succeeded then history.note operation else history) history := by
  induction log generalizing history with
  | nil => rfl
  | cons entry log ih =>
      obtain ⟨operation, reply⟩ := entry
      cases reply with
      | error error => exact ih history
      | ok reply => exact ih (history.note operation)

end History

/-- The numbers that the registrations of a log were given. -/
def Log.issued (log : Log ι) : List Nat :=
  log.filterMap fun (_, reply) =>
    match reply with
    | .ok (.registered id) => some id
    | _ => none

namespace Context

/-- A context whose fields all stand alone: each is what its registration and its commits make, under
the number of its registration, and there are no others. -/
structure Tracks (settings : SparseConfig) (context : Context ι) (history : History ι) : Prop where
  sparse : context.config.sparse = settings
  layouts : ∀ space, history.layouts space = (context.spaces.get? space).map (·.coloring.layout)
  counted : context.nextField = history.registrations.length
  fields : ∀ id, Option.Rel (fun any registration => registration.Stands settings any)
    (context.fields.get? id) history.registrations[id]?

variable {settings : SparseConfig} {context : Context ι} {history : History ι}

theorem create_tracks {rank size : Rank} {config : RuntimeConfig}
    (created : Context.create rank size config = .ok context) :
    Tracks config.sparse context {} := by
  unfold Context.create at created
  obtain ⟨_, created⟩ := refuse_eq_ok.1 created
  obtain ⟨⟨⟩, _, created⟩ := bind_eq_ok.1 created
  cases created
  exact {
    sparse := rfl
    layouts := fun _ => rfl
    counted := rfl
    fields := fun _ => .none }

/-- A new coloring leaves the fields alone, those over its space among them. -/
theorem Tracks.addColoring (tracks : Tracks settings context history) (space : SpaceId)
    (coloring : SpaceColoring) :
    Tracks settings (context.addColoring space coloring)
      (history.color space coloring.coloring.layout) where
  sparse := tracks.sparse
  layouts := by
    intro other
    simp only [History.color, Function.update_apply, Context.addColoring, SortedMap.get?_insert,
      Std.LawfulEqOrd.compare_eq_iff_eq]
    by_cases same : other = space
    · rw [if_pos same, if_pos same]
      rfl
    · rw [if_neg same, if_neg same]
      exact tracks.layouts other
  counted := tracks.counted
  fields := tracks.fields

/-- A registration makes a field over the layout of its space, with the next number. -/
theorem Tracks.register (tracks : Tracks settings context history) {type : ι} {name : String}
    {space : SpaceId} {memory : Memory} {next : Context ι} {id : Nat}
    (registered : context.register type name space memory = .ok (next, id)) :
    id = history.registrations.length ∧ ∃ layout, history.layouts space = some layout ∧
      Tracks settings next (history.register { type, name, space, layout, memory }) := by
  obtain ⟨coloring, colored, registered⟩ := bind_eq_ok.1 registered
  obtain ⟨field, created, registered⟩ := bind_eq_ok.1 registered
  cases registered
  refine ⟨tracks.counted, coloring.coloring.layout, ?_, ?_⟩
  · rw [tracks.layouts]
    rw [coloringOf] at colored
    split at colored
    next found =>
      cases colored
      rw [found]
      rfl
    · cases colored
  · rw [tracks.sparse] at created
    have found : ∀ other, (context.fields.insert context.nextField ⟨type, field⟩).get? other =
        if other = history.registrations.length then some ⟨type, field⟩
        else context.fields.get? other := by
      rw [← tracks.counted]
      exact context.get?_setField context.nextField field
    refine ⟨tracks.sparse, tracks.layouts, ?_, ?_⟩
    · rw [History.register, List.length_append, ← tracks.counted]
      rfl
    · intro other
      rw [found, History.getElem?_register]
      split
      · exact .some (.create created)
      · exact tracks.fields other

variable [DecidableEq ι]

/-- A commit reaches the field that it was made to and no other. -/
theorem Tracks.commit (tracks : Tracks settings context history) {type : ι} {id : Nat}
    {submission : Submission (Carrier type)} {next : Context ι} {stats : CommitStats}
    (committed : context.submit type id submission = .ok (next, stats)) :
    Tracks settings next (history.commit type id submission) := by
  obtain ⟨field, found, committed⟩ := bind_eq_ok.1 committed
  obtain ⟨draft, drafted, committed⟩ := bind_eq_ok.1 committed
  rw [Context.commit, found, ok_bind] at committed
  obtain ⟨⟨last, _⟩, committed, same⟩ := bind_eq_ok.1 committed
  cases same
  have made : field.submit submission = .ok last :=
    Field.submit_eq_ok.2 ⟨draft, stats, drafted, committed⟩
  have held := field_eq_ok_iff.1 found
  have stands := tracks.fields id
  rw [held] at stands
  cases noted : history.registrations[id]? with
  | none =>
      rw [noted] at stands
      cases stands
  | some registration =>
      rw [noted] at stands
      cases stands with
      | some stands =>
          refine ⟨tracks.sparse, tracks.layouts, ?_, ?_⟩
          · exact tracks.counted.trans (List.length_modify ..).symm
          · intro other
            rw [get?_setField, History.getElem?_commit noted]
            split
            · exact .some (stands.receive made)
            · exact tracks.fields other

/-- What one operation does to a context, its history notes: a registration takes the next number, and
whatever fails takes nothing. -/
theorem Tracks.call (tracks : Tracks settings context history) (operation : Operation ι) :
    let reply := (context.call operation).1
    let later := history.record operation reply
    Tracks settings (context.call operation).2 later ∧
      List.range later.registrations.length =
        List.range history.registrations.length ++ Log.issued [(operation, reply)] := by
  have unchanged := List.append_nil (List.range history.registrations.length)
  cases operation with
  | addColoring space coloring => exact ⟨tracks.addColoring space coloring, unchanged.symm⟩
  | register type name space memory =>
      rw [call_register]
      cases registered : context.register type name space memory with
      | error error => exact ⟨tracks, unchanged.symm⟩
      | ok result =>
          obtain ⟨next, id⟩ := result
          obtain ⟨number, layout, colored, tracks⟩ := tracks.register registered
          simp only [History.record, History.note, colored]
          refine ⟨tracks, ?_⟩
          rw [History.register, List.length_append, number]
          exact List.range_succ
  | lookUp type id =>
      rw [call_lookUp]
      cases context.field type id with
      | error error => exact ⟨tracks, unchanged.symm⟩
      | ok field => exact ⟨tracks, unchanged.symm⟩
  | commit type id submission =>
      rw [call_commit]
      cases committed : context.submit type id submission with
      | error error => exact ⟨tracks, unchanged.symm⟩
      | ok result =>
          refine ⟨tracks.commit committed, ?_⟩
          change List.range (history.registrations.modify id _).length = _
          rw [List.length_modify]
          exact unchanged.symm

/-- By induction on the operations, with the history noted up to each of them. -/
theorem Tracks.callAll (tracks : Tracks settings context history) (operations : List (Operation ι)) :
    let log := (context.callAll operations).1
    let later := history.recordAll log
    Tracks settings (context.callAll operations).2 later ∧
      List.range later.registrations.length =
        List.range history.registrations.length ++ log.issued := by
  induction operations generalizing context history with
  | nil => exact ⟨tracks, (List.append_nil _).symm⟩
  | cons operation operations ih =>
      obtain ⟨tracks, first⟩ := tracks.call operation
      obtain ⟨tracks, rest⟩ := ih tracks
      refine ⟨tracks, rest.trans ?_⟩
      rw [first, List.append_assoc]
      exact congrArg _ (List.filterMap_append ..).symm

/-- The operations on a context keep its fields apart.  The numbers that registrations are given are 0,
1, 2 and so on, and those that fail take none.  A field is found under its number at its own type, refused
at any other type by the names of both, and unknown under any other number.  It has the layout that its
space had when it was registered, and it is in all respects the field that the commits to it would have
made by themselves, one epoch for each.  A commit is refused where the look-up of its field is, and
whatever fails leaves the context as it was, also for want of memory. -/
theorem callAll_isolates_fields {rank size : Rank} {config : RuntimeConfig} {first : Context ι}
    (created : Context.create rank size config = .ok first) (operations : List (Operation ι)) :
    let log := (first.callAll operations).1
    let last := (first.callAll operations).2
    let registrations := (History.recordAll {} log).registrations
    log.issued = List.range registrations.length ∧
      (∀ id,
        match registrations[id]? with
        | none => ∀ type : ι, last.field type id = .error (.unknownField id)
        | some registration =>
          (∃ field : Field registration.type,
            last.field registration.type id = .ok field ∧
              registration.standalone config.sparse = .ok field ∧
              registration.Describes field) ∧
          ∀ type : ι, type ≠ registration.type →
            last.field type id =
              .error (.fieldTypeMismatch registration.name (name registration.type) (name type))) ∧
      (∀ (type : ι) (id : Nat) (error : Error) (submission : Submission (Carrier type)),
        last.field type id = .error error →
          last.call (.commit type id submission) = (.error error, last)) ∧
      ∀ (operation : Operation ι) (error : Error),
        (last.call operation).1 = .error error → (last.call operation).2 = last := by
  intro log last registrations
  obtain ⟨tracks, numbers⟩ := (create_tracks created).callAll operations
  refine ⟨numbers.symm, ?_, ?_, fun operation error failed => call_of_error failed⟩
  · intro id
    have stands := tracks.fields id
    generalize held : (first.callAll operations).2.fields.get? id = any? at stands
    change Option.Rel _ _ registrations[id]? at stands
    generalize registrations[id]? = registration? at stands ⊢
    cases stands with
    | none => exact field_of_missing held
    | some stands =>
        obtain ⟨field, standalone, describes⟩ := stands
        refine ⟨⟨field, field_eq_ok_iff.2 held, standalone, describes⟩, ?_⟩
        intro type other
        rw [field_of_otherType held other, describes.name]
  · intro type id error submission refused
    rw [call_commit, submit, refused]
    rfl

/-- The context of a process by itself, with narrow rows. -/
def narrow : Context where
  rank := 0
  size := 1
  config := { sparse := { numSlots := 1, maxEntries := 4, reserveChunk := 1 } }
  spaces := ∅
  fields := ∅

/-- A commit of a draft with memory for what comes up in practice. -/
def submitted {τ : Type} (source : DraftSource τ) : Submission τ where
  source
  memory := .ofElementBytes 16
  scratch := .ofElementBytes 16

/-- Two fields over a space that is colored anew between their registrations.  Two registrations, one
commit at the type of the other field and one commit of a draft without rows fail. -/
def interleaved : List (Operation ValueType) := [
  .addColoring 0 {
    coloring := { exclusive := .singleton { id := 0, owner := 0, offset := 0 } }, summaries := ∅ },
  .register .word64 "lost" 9 (.ofElementBytes 16),
  .register .word64 "refused" 0 ((Memory.ofElementBytes 16).capped 0),
  .register .word64 "pressure" 0 (.ofElementBytes 16),
  .addColoring 0 { coloring := {}, summaries := ∅ },
  .register .flag "wet" 0 (.ofElementBytes 16),
  .commit .word64 0 (submitted (.own (.ofElementBytes 16) [.set 0 1 (7 : UInt64)])),
  .commit .flag 0 (submitted (.own (.ofElementBytes 16) [])),
  .commit .word64 0 (submitted (.foreign (.empty {} 1 4)))]

theorem callAll_isolates_fields_interleaved :
    Context.create 0 1 narrow.config = .ok narrow ∧
      let log := (narrow.callAll interleaved).1
      let last := (narrow.callAll interleaved).2
      log.issued = [0, 1] ∧
        (∃ field : Field ValueType.word64, last.field .word64 0 = .ok field ∧
          field.store.layout = { exclusive := 1 } ∧ field.epoch = 1) ∧
        (∃ field : Field ValueType.flag, last.field .flag 1 = .ok field ∧
          field.store.layout = {} ∧ field.epoch = 0) ∧
        last.field .flag 0 = .error (.fieldTypeMismatch "pressure" "u64" "bool") ∧
        last.field .word64 2 = .error (.unknownField 2) := by
  have created : Context.create 0 1 narrow.config = .ok narrow := rfl
  have succeeded : (narrow.callAll interleaved).1.map (fun entry => entry.2.isOk) =
      [true, false, false, true, true, true, true, false, false] := by
    decide +kernel
  have noted : (History.recordAll {} (narrow.callAll interleaved).1).registrations = [
      { type := ValueType.word64, name := "pressure", space := 0, layout := { exclusive := 1 },
        memory := .ofElementBytes 16
        commits := [submitted (.own (.ofElementBytes 16) [.set 0 1 (7 : UInt64)])] },
      { type := ValueType.flag, name := "wet", space := 0, layout := {}
        memory := .ofElementBytes 16 }] := by
    rw [History.recordAll_eq, operations_callAll, succeeded]
    with_unfolding_all rfl
  obtain ⟨numbers, fields, _⟩ := callAll_isolates_fields created interleaved
  rw [noted] at numbers fields
  obtain ⟨⟨pressure, foundPressure, _, ofPressure⟩, otherThanPressure⟩ := fields 0
  obtain ⟨⟨wet, foundWet, _, ofWet⟩, _⟩ := fields 1
  have beyond := fields 2
  exact ⟨created, numbers, ⟨pressure, foundPressure, ofPressure.layout, ofPressure.epoch⟩,
    ⟨wet, foundWet, ofWet.layout, ofWet.epoch⟩, otherThanPressure .flag (by decide), beyond .word64⟩

end Context

end Subdomain

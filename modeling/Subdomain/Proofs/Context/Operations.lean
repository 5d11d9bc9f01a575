import Subdomain.Context
import Subdomain.Proofs.Sparse.Attempts
import Subdomain.Proofs.Sparse.Calls

/-!
# Operations on a context

A context is changed in place, and an operation on it may stop halfway.  The programs of this module make
the steps of an operation in their order and keep the context as it stands where they stop: a registration
takes its number before the field is there under it, and a commit works on the field itself.  An operation
that fails is as if it had not been attempted.
-/

namespace Subdomain

open ValueFamily (Carrier name)

/-! ## Drafts to commit -/

variable {ι : Type} [ValueFamily ι] {type : ι}

/-- Where a draft comes from that is committed to a field. -/
inductive DraftSource (τ : Type) where
  /-- The field hands it out, if the memory suffices, and calls are made on it. -/
  | own (memory : Memory) (calls : List (Change τ))
  /-- It was made elsewhere, for rows of whatever shape. -/
  | foreign (draft : Draft τ)

/-- The draft that is committed to a field. -/
def DraftSource.draftFor (field : Field type) :
    DraftSource (Carrier type) → Except Error (Draft (Carrier type))
  | .own memory calls => do return ((← field.draft memory).callAll calls).2
  | .foreign draft => .ok draft

/-- A commit that is asked for: where its draft comes from, and the memory that it is given. -/
structure Submission (τ : Type) where
  source : DraftSource τ
  memory : Memory
  scratch : Memory

/-! ## Commits to a field -/

namespace Field

/-- Commit a draft in place: the store first, whatever comes of it, and then the count of commits. -/
def commitInPlace (attempt : Attempt (Carrier type)) :
    ExceptT Error (StateM (Field type)) CommitStats := do
  let field ← get
  let (outcome, store) := field.store.attempt attempt
  modify fun field => { field with store }
  let stats ← outcome
  modify fun field => { field with epoch := field.epoch + 1 }
  return stats

/-- What a commit reports, and the field that it leaves. -/
def attempt (field : Field type) (attempt : Attempt (Carrier type)) :
    Except Error CommitStats × Field type :=
  (commitInPlace attempt).run.run field

/-- A commit that fails leaves the field as it was. -/
theorem attempt_eq (field : Field type) (attempt : Attempt (Carrier type)) :
    field.attempt attempt =
      match field.commit attempt.draft attempt.memory attempt.scratch with
      | .ok (next, stats) => (.ok stats, next)
      | .error error => (.error error, field) := by
  have store := Store.attempt_eq field.store attempt
  rw [Field.attempt, commitInPlace, run_get_bind, commit]
  simp only [store]
  cases field.store.commit attempt.memory attempt.scratch attempt.draft with
  | error error => rfl
  | ok result => rfl

end Field

/-! ## Operations -/

/-- An operation on a context, with the memory that it is given. -/
inductive Operation (ι : Type) [ValueFamily ι] where
  | addColoring (space : SpaceId) (coloring : SpaceColoring)
  | register (type : ι) (name : String) (space : SpaceId) (memory : Memory)
  | lookUp (type : ι) (id : Nat)
  /-- Look a field up at a type and commit a draft to it. -/
  | commit (type : ι) (id : Nat) (submission : Submission (Carrier type))

/-- What an operation reports. -/
inductive Reply (ι : Type) [ValueFamily ι] where
  | colored
  | registered (id : Nat)
  | found (any : AnyField ι)
  | committed (stats : CommitStats)

/-- Operations that were made, each with what it reported. -/
abbrev Log (ι : Type) [ValueFamily ι] := List (Operation ι × Except Error (Reply ι))

namespace Context

variable [DecidableEq ι]

/-- Make an operation in place. -/
def perform : Operation ι → ExceptT Error (StateM (Context ι)) (Reply ι)
  | .addColoring space coloring => do
      modify fun context => context.addColoring space coloring
      return .colored
  | .register type name space memory => do
      let context ← get
      let coloring ← context.coloringOf space
      let layout := coloring.coloring.layout
      let field : Field type ← Field.create name space layout context.config.sparse memory
      let id := context.nextField
      modify fun context => { context with nextField := id + 1 }
      modify fun context => context.setField id field
      return .registered id
  | .lookUp type id => do
      let context ← get
      let field ← context.field type id
      return .found ⟨type, field⟩
  | .commit type id submission => do
      let context ← get
      let field ← context.field type id
      let draft ← submission.source.draftFor field
      let (outcome, field) := field.attempt ⟨submission.memory, submission.scratch, draft⟩
      modify fun context => context.setField id field
      let stats ← outcome
      return .committed stats

/-- What an operation reports, and the context that it leaves. -/
def call (context : Context ι) (operation : Operation ι) : Except Error (Reply ι) × Context ι :=
  (perform operation).run.run context

/-- Operations one after the other, each with what it reports, and the context that they leave. -/
def callAll (context : Context ι) : List (Operation ι) → Log ι × Context ι
  | [] => ([], context)
  | first :: rest =>
      let (reply, next) := context.call first
      let (log, last) := next.callAll rest
      ((first, reply) :: log, last)

/-- Each operation is logged, whatever comes of it. -/
theorem operations_callAll (context : Context ι) (operations : List (Operation ι)) :
    (context.callAll operations).1.map Prod.fst = operations := by
  induction operations generalizing context with
  | nil => rfl
  | cons operation operations ih => exact congrArg (operation :: ·) (ih _)

variable {context : Context ι}

/-- A registration that fails leaves the context as it was. -/
theorem call_register (context : Context ι) (type : ι) (name : String) (space : SpaceId)
    (memory : Memory) :
    context.call (.register type name space memory) =
      match context.register type name space memory with
      | .ok (next, id) => (.ok (.registered id), next)
      | .error error => (.error error, context) := by
  rw [call, perform, run_get_bind, run_outcome_bind, register]
  cases context.coloringOf space with
  | error error => rfl
  | ok coloring =>
      dsimp only
      rw [run_outcome_bind, ok_bind]
      cases (Field.create name space coloring.coloring.layout context.config.sparse memory :
          Except Error (Field type)) with
      | error error => rfl
      | ok field => rfl

theorem call_lookUp (context : Context ι) (type : ι) (id : Nat) :
    context.call (.lookUp type id) =
      ((context.field type id).map fun field => .found ⟨type, field⟩, context) := by
  rw [call, perform, run_get_bind, run_outcome_bind]
  cases context.field type id with
  | error error => rfl
  | ok field => rfl

omit [DecidableEq ι] in
theorem get?_setField (context : Context ι) (id : Nat) (field : Field type) (other : Nat) :
    (context.setField id field).fields.get? other =
      if other = id then some ⟨type, field⟩ else context.fields.get? other := by
  rw [setField, SortedMap.get?_insert]
  exact ite_congr (propext Std.LawfulEqOrd.compare_eq_iff_eq) (fun _ => rfl) fun _ => rfl

omit [DecidableEq ι] in
/-- A field may be put back where it was. -/
theorem setField_self {id : Nat} {any : AnyField ι} (found : context.fields.get? id = some any) :
    context.setField id any.field = context := by
  have same : context.fields.insert id any = context.fields := by
    apply SortedMap.ext
    intro other
    rw [SortedMap.get?_insert]
    split
    · next here => rw [Std.LawfulEqOrd.eq_of_compare here, found]
    · rfl
  rw [setField, same]

theorem field_of_missing {id : Nat} (missing : context.fields.get? id = none) (type : ι) :
    context.field type id = .error (.unknownField id) := by
  rw [Context.field, missing]

theorem field_of_otherType {id : Nat} {any : AnyField ι} (found : context.fields.get? id = some any)
    {type : ι} (other : type ≠ any.type) :
    context.field type id =
      .error (.fieldTypeMismatch any.field.name (name any.type) (name type)) := by
  rw [Context.field, found]
  dsimp only
  rw [AnyField.as?, dif_neg (Ne.symm other)]

theorem field_eq_ok_iff {id : Nat} {field : Field type} :
    context.field type id = .ok field ↔ context.fields.get? id = some ⟨type, field⟩ := by
  rw [Context.field]
  cases context.fields.get? id with
  | none => exact ⟨nofun, nofun⟩
  | some any =>
      obtain ⟨stored, held⟩ := any
      simp only [AnyField.as?, Option.some.injEq]
      by_cases same : stored = type
      · subst same
        simp
      · have apart : (⟨stored, held⟩ : AnyField ι) ≠ ⟨type, field⟩ :=
          fun equal => same (congrArg AnyField.type equal)
        simp [same]

/-- The commit that is asked for, of the draft that it is asked for. -/
def submit (context : Context ι) (type : ι) (id : Nat) (submission : Submission (Carrier type)) :
    Except Error (Context ι × CommitStats) := do
  let draft ← submission.source.draftFor (← context.field type id)
  context.commit type id draft submission.memory submission.scratch

/-- A commit that fails leaves the context as it was. -/
theorem call_commit (context : Context ι) (type : ι) (id : Nat)
    (submission : Submission (Carrier type)) :
    context.call (.commit type id submission) =
      match context.submit type id submission with
      | .ok (next, stats) => (.ok (.committed stats), next)
      | .error error => (.error error, context) := by
  rw [call, perform, run_get_bind, run_outcome_bind, submit]
  cases found : context.field type id with
  | error error => rfl
  | ok field =>
      have held : context.setField id field = context := setField_self (field_eq_ok_iff.1 found)
      dsimp only
      rw [run_outcome_bind, ok_bind]
      cases submission.source.draftFor field with
      | error error => rfl
      | ok draft =>
          dsimp only
          rw [field.attempt_eq, ok_bind, Context.commit, found, ok_bind]
          cases field.commit draft submission.memory submission.scratch with
          | error error =>
              show (Except.error error, context.setField id field) = _
              rw [held]
              rfl
          | ok result => rfl

/-- An operation that fails leaves the context as it was. -/
theorem call_of_error {operation : Operation ι} {error : Error}
    (failed : (context.call operation).1 = .error error) : (context.call operation).2 = context := by
  cases operation with
  | addColoring space coloring => cases failed
  | register type name space memory =>
      rw [call_register] at failed ⊢
      cases done : context.register type name space memory with
      | error error => rfl
      | ok registered =>
          rw [done] at failed
          cases failed
  | lookUp type id => rw [call_lookUp]
  | commit type id submission =>
      rw [call_commit] at failed ⊢
      cases done : context.submit type id submission with
      | error error => rfl
      | ok committed =>
          rw [done] at failed
          cases failed

end Context

end Subdomain

import Subdomain.Error

/-!
# Programs of a rank

What one rank does in a collective call, as data: it ends with a value, sends a message and goes on,
or waits for a message and goes on with it. A program says nothing about the other ranks, so the same
program can be run in any interleaving.

Main statements: programs form a lawful monad, and a program is above each of its continuations in a
well-founded order, so every program comes to an end.
-/

namespace Subdomain

/-- The contents of a message. -/
abbrev Bytes := List UInt8

/-- The label under which a message travels; adding to a tag wraps around. -/
abbrev Tag := UInt16

/-- What a rank does. -/
inductive Program (α : Type) where
  /-- End with a value. -/
  | done (value : α)
  /-- Send a message and go on. -/
  | send (dst : Rank) (tag : Tag) (body : Bytes) (next : Program α)
  /-- Wait for a message and go on with it, or with nothing if it will never come. -/
  | receive (src : Rank) (tag : Tag) (next : Option Bytes → Program α)

namespace Program

variable {α β γ : Type}

/-- Go on with another program once one has ended. -/
def bind : Program α → (α → Program β) → Program β
  | done value, rest => rest value
  | send dst tag body next, rest => send dst tag body (next.bind rest)
  | receive src tag next, rest => receive src tag fun body => (next body).bind rest

instance : Monad Program where
  pure := done
  bind := bind

@[simp] theorem pure_eq_done (value : α) : (pure value : Program α) = done value := rfl

@[simp] theorem done_bind (value : α) (rest : α → Program β) :
    (done value >>= rest) = rest value := rfl

@[simp] theorem send_bind (dst : Rank) (tag : Tag) (body : Bytes) (next : Program α)
    (rest : α → Program β) :
    (send dst tag body next >>= rest) = send dst tag body (next >>= rest) := rfl

@[simp] theorem receive_bind (src : Rank) (tag : Tag) (next : Option Bytes → Program α)
    (rest : α → Program β) :
    (receive src tag next >>= rest) = receive src tag fun body => next body >>= rest := rfl

theorem bind_done (program : Program α) : program.bind done = program := by
  induction program with
  | done value => rfl
  | send dst tag body next ih => simp [bind, ih]
  | receive src tag next ih => simp [bind, ih]

theorem bind_bind (program : Program α) (middle : α → Program β) (last : β → Program γ) :
    (program.bind middle).bind last = program.bind fun value => (middle value).bind last := by
  induction program with
  | done value => rfl
  | send dst tag body next ih => simp [bind, ih]
  | receive src tag next ih => simp [bind, ih]

instance : LawfulMonad Program := LawfulMonad.mk'
  Program bind_done (fun _ _ => rfl) bind_bind

/-- Whether the program has ended. -/
def isDone : Program α → Bool
  | done _ => true
  | _ => false

/-- The value that the program has ended with. -/
def value? : Program α → Option α
  | done value => some value
  | _ => none

/-- The value of a program whose rank is alone: nothing it sends arrives and nothing comes. -/
def runAlone : Program α → α
  | done value => value
  | send _ _ _ next => next.runAlone
  | receive _ _ next => (next none).runAlone

/-- One program is what another goes on with. -/
inductive Continues : Program α → Program α → Prop where
  | send (dst : Rank) (tag : Tag) (body : Bytes) (next : Program α) :
      Continues next (.send dst tag body next)
  | receive (src : Rank) (tag : Tag) (next : Option Bytes → Program α) (body : Option Bytes) :
      Continues (next body) (.receive src tag next)

theorem continues_acc (program : Program α) : Acc Continues program := by
  induction program with
  | done value => exact ⟨_, fun _ step => by cases step⟩
  | send dst tag body next ih => exact ⟨_, fun _ step => by cases step; exact ih⟩
  | receive src tag next ih => exact ⟨_, fun _ step => by cases step; exact ih _⟩

end Program

/-- A step of a rank that may fail. -/
abbrev Collective (α : Type) := ExceptT Error Program α

namespace Collective

/-- Send a message. -/
def send (dst : Rank) (tag : Tag) (body : Bytes) : Collective Unit :=
  ExceptT.lift (Program.send dst tag body (.done ()))

/-- Fail if a result is an error. -/
def ofExcept {α : Type} (result : Except Error α) : Collective α := ExceptT.mk (.done result)

/-- Wait for a message. -/
def receive (src : Rank) (tag : Tag) : Collective (Option Bytes) :=
  ExceptT.lift (Program.receive src tag .done)

end Collective

end Subdomain

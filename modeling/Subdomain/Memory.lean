import Subdomain.Error

/-!
# Memory

Buffers are lists that are allocated fallibly. What an allocation is granted is a predicate on its
length, so that a store can be run over memory that refuses any lengths whatever.
-/

namespace Subdomain

/-- The largest length or position that a 64-bit word can hold. -/
def maxWord : Nat := 0xFFFFFFFFFFFFFFFF

/-- The most bytes that one allocation may take. -/
def maxAllocationBytes : Nat := 0x7FFFFFFFFFFFFFFF

/-- The most elements of one buffer. Row descriptors give a position 48 bits, and no memory holds as
many elements as these can count. -/
def maxElements : Nat := 0xFFFFFFFFFFFF

/-- Which lengths, in elements, an allocation is granted. -/
structure Memory where
  grants : Nat → Bool
  bounded : ∀ length, grants length = true → length ≤ maxElements

namespace Memory

/-- Memory that grants every buffer it can address, for elements of a given size. -/
def ofElementBytes (bytes : Nat) : Memory where
  grants length := decide (length ≤ maxElements) && decide (length * bytes ≤ maxAllocationBytes)
  bounded _ granted := of_decide_eq_true (Bool.and_eq_true_iff.1 granted).1

/-- Memory that refuses, besides, every length over a limit. -/
def capped (memory : Memory) (limit : Nat) : Memory where
  grants length := memory.grants length && decide (length ≤ limit)
  bounded length granted := memory.bounded length (Bool.and_eq_true_iff.1 granted).1

/-- Allocate a buffer of equal elements. -/
def allocate {α : Type} (memory : Memory) (length : Nat) (fill : α) : Except Error (List α) :=
  if memory.grants length then .ok (List.replicate length fill)
  else .error (.allocationFailed length)

end Memory

/-- Replace the elements from a position on by a run of equal length. -/
def overwrite {α : Type} (start : Nat) (run cells : List α) : List α :=
  cells.take start ++ run ++ cells.drop (start + run.length)

/-- Replace the element at a position, which has to exist. -/
def writeAt {α : Type} (cells : List α) (position : Nat) (value : α) : Except Error (List α) :=
  if position < cells.length then .ok (cells.set position value)
  else .error (.defect .indexOutOfRange)

/-- Exchange the elements at two positions, which have to exist. -/
def swapAt {α : Type} (cells : List α) (first second : Nat) : List α :=
  match cells[first]?, cells[second]? with
  | some left, some right => (cells.set first right).set second left
  | _, _ => cells

/-- The text that names a buffer by its length. -/
def bufferText (length : Nat) : String := "VecStorage \x7b len: " ++ toString length ++ " \x7d"

end Subdomain

import Subdomain.Error
import Subdomain.Ordered.Interval

/-!
# Packed row descriptors

A row's start and length packed into one word: the low bits hold the length and the remaining
high bits the start. The number of length bits is a parameter, from 0 to 63.
-/

namespace Subdomain

/-- A row descriptor whose low `bits` bits hold the row length and whose high bits its start. -/
structure Offset (bits : Nat) where
  word : UInt64 := 0
  deriving DecidableEq, Repr

namespace Offset

variable {bits : Nat}

/-- The width of the count field as a shift distance. -/
def shift (bits : Nat) : UInt64 := UInt64.ofNat bits

/-- The word with every bit of the count field set. -/
def countMask (bits : Nat) : UInt64 := (1 <<< shift bits) - 1

/-- The longest row that the count field can describe. -/
def maxCount (bits : Nat) : UInt64 := countMask bits

/-- The last start that the start field can describe. -/
def maxStart (bits : Nat) : UInt64 := 0xFFFFFFFFFFFFFFFF >>> shift bits

/-- Pack a start and a count; bits that do not fit their field are lost. -/
def pack (start count : UInt64) : Offset bits where
  word := start <<< shift bits ||| count &&& countMask bits

/-- Pack a start and a count, refusing a count that does not fit. -/
def pack? (start count : UInt64) : Except Error (Offset bits) :=
  if maxCount bits < count then .error (.offsetCountOverflow count.toNat bits)
  else .ok (pack start count)

/-- Where the row starts. -/
def start (offset : Offset bits) : UInt64 := offset.word >>> shift bits

/-- How long the row is. -/
def count (offset : Offset bits) : UInt64 := offset.word &&& countMask bits

/-- Where the row ends. -/
def stop (offset : Offset bits) : UInt64 := offset.start + offset.count

/-- The positions of the row. -/
def interval (offset : Offset bits) : Interval where
  start := offset.start.toNat
  stop := offset.start.toNat + offset.count.toNat

/-- The descriptor of a row that starts where another ends. -/
def after (previous : Offset bits) (count : UInt64) : Offset bits :=
  pack previous.stop count

/-- Replace the count and keep the start. -/
def setCount (offset : Offset bits) (count : UInt64) : Offset bits where
  word := offset.word &&& ~~~countMask bits ||| count &&& countMask bits

/-- Replace the count and keep the start, refusing a count that does not fit. -/
def setCount? (offset : Offset bits) (count : UInt64) : Except Error (Offset bits) :=
  if maxCount bits < count then .error (.offsetCountOverflow count.toNat bits)
  else .ok (offset.setCount count)

/-- Replace the start and keep the count. -/
def setStart (offset : Offset bits) (start : UInt64) : Offset bits where
  word := offset.word &&& countMask bits ||| start <<< shift bits

/-- The descriptor in words. -/
def describe (offset : Offset bits) : String := s!"Offset({offset.start}+{offset.count})"

end Offset

end Subdomain

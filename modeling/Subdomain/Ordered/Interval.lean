/-!
# Intervals

Half-open intervals of row, cell and entity numbers.
-/

namespace Subdomain

/-- The numbers from `start` up to, not including, `stop`; empty unless `start < stop`. -/
structure Interval where
  start : Nat
  stop : Nat
  deriving DecidableEq, Repr

namespace Interval

instance : Membership Nat Interval where
  mem interval number := interval.start ≤ number ∧ number < interval.stop

instance (number : Nat) (interval : Interval) : Decidable (number ∈ interval) :=
  inferInstanceAs (Decidable (interval.start ≤ number ∧ number < interval.stop))

@[simp] theorem mem_mk {start stop number : Nat} :
    number ∈ Interval.mk start stop ↔ start ≤ number ∧ number < stop := Iff.rfl

/-- The numbers of the interval in ascending order. -/
def toList (interval : Interval) : List Nat :=
  List.range' interval.start (interval.stop - interval.start)

@[simp] theorem mem_toList {interval : Interval} {number : Nat} :
    number ∈ interval.toList ↔ number ∈ interval := by
  cases interval
  simp only [toList, List.mem_range'_1, mem_mk]
  omega

end Interval

end Subdomain

import Subdomain.Ordered.Map

/-!
# Identifiers

The numbers by which entities, processes and index spaces are known.
-/

namespace Subdomain

/-- Global number of a mesh entity within one index space. -/
abbrev EntityId := UInt64

/-- Number of a process in a group, counted from 0. -/
abbrev Rank := UInt64

/-- Number of an index space: cells, vertices, and so on. -/
abbrev SpaceId := UInt64

/-- A set of entities. -/
abbrev IdSet := SortedSet EntityId

/-- A set of processes. -/
abbrev RankSet := SortedSet Rank

/-- The ranks of a group of the given size, in ascending order. -/
def ranksBelow (size : Rank) : List Rank :=
  (List.range size.toNat).map UInt64.ofNat

@[simp] theorem length_ranksBelow (size : Rank) : (ranksBelow size).length = size.toNat := by
  simp [ranksBelow]

@[simp] theorem mem_ranksBelow {size rank : Rank} : rank ∈ ranksBelow size ↔ rank < size := by
  simp only [ranksBelow, List.mem_map, List.mem_range]
  constructor
  · intro ⟨position, below, equal⟩
    subst equal
    have bound := size.toNat_lt
    rw [UInt64.lt_iff_toNat_lt, UInt64.toNat_ofNat', Nat.mod_eq_of_lt (by omega)]
    exact below
  · intro below
    exact ⟨rank.toNat, UInt64.lt_iff_toNat_lt.1 below, UInt64.ofNat_toNat⟩

end Subdomain

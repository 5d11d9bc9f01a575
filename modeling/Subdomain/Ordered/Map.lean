import Subdomain.Ordered.Set

/-!
# Ordered maps

A finite map from ordered keys, kept as the list of its entries in strictly ascending key order.

Main statements: look-up after each operation (`get?_insert`, `get?_erase`, `get?_ofKeys`), and `ext`: two maps
that answer every look-up alike are equal.
-/

namespace Subdomain

universe u v

/-- A finite map from ordered keys, as the list of its entries in strictly ascending key order. -/
structure SortedMap (κ : Type u) (ν : Type v) [Ord κ] where
  toList : List (κ × ν) := []
  ascending : toList.Pairwise (fun first second => compare first.1 second.1 = .lt) := by simp

namespace SortedMap

variable {κ : Type u} {ν : Type v} [Ord κ]

/-- Put an entry at its place in an ascending list, in place of an entry with the same key. -/
def insertAscending (key : κ) (value : ν) : List (κ × ν) → List (κ × ν)
  | [] => [(key, value)]
  | head :: rest =>
    match compare key head.1 with
    | .lt => (key, value) :: head :: rest
    | .eq => (key, value) :: rest
    | .gt => head :: insertAscending key value rest

instance : EmptyCollection (SortedMap κ ν) where
  emptyCollection := {}

instance : Inhabited (SortedMap κ ν) where
  default := ∅

@[simp] theorem toList_empty : (∅ : SortedMap κ ν).toList = [] := rfl

theorem eq_of_toList_eq {first second : SortedMap κ ν} (equal : first.toList = second.toList) :
    first = second := by
  cases first; cases second; simp_all

instance [DecidableEq κ] [DecidableEq ν] : DecidableEq (SortedMap κ ν) := fun first second =>
  decidable_of_iff (first.toList = second.toList) ⟨eq_of_toList_eq, fun equal => equal ▸ rfl⟩

/-- Number of entries. -/
def size (map : SortedMap κ ν) : Nat := map.toList.length

/-- The value stored under a key. -/
def get? (map : SortedMap κ ν) (key : κ) : Option ν :=
  (map.toList.find? fun entry => compare key entry.1 == .eq).map Prod.snd

/-- The keys in ascending order. -/
def keys (map : SortedMap κ ν) : SortedSet κ where
  toList := map.toList.map Prod.fst
  ascending := List.pairwise_map.2 map.ascending

/-- The entries that pass a test. -/
def filter (test : κ → ν → Bool) (map : SortedMap κ ν) : SortedMap κ ν where
  toList := map.toList.filter fun entry => test entry.1 entry.2
  ascending := map.ascending.filter _

/-- The map without the entry under a key. -/
def erase (map : SortedMap κ ν) (key : κ) : SortedMap κ ν :=
  map.filter fun other _ => compare key other != .eq

/-- Give each member of a set the value that a function finds for it; members without one are
left out. -/
def ofKeys (keys : SortedSet κ) (value? : κ → Option ν) : SortedMap κ ν where
  toList := keys.toList.filterMap fun key => (value? key).map (key, ·)
  ascending := by
    refine List.pairwise_filterMap.2 (keys.ascending.imp fun {first second} less => ?_)
    intro left found right other
    simp only [Option.map_eq_some_iff] at found other
    obtain ⟨_, _, rfl⟩ := found
    obtain ⟨_, _, rfl⟩ := other
    exact less

@[simp] theorem get?_empty (key : κ) : (∅ : SortedMap κ ν).get? key = none := rfl

theorem mem_insertAscending {key : κ} {value : ν} {entries : List (κ × ν)} {other : κ × ν}
    (member : other ∈ insertAscending key value entries) :
    other = (key, value) ∨ other ∈ entries := by
  induction entries with
  | nil => simpa [insertAscending] using member
  | cons head rest ih =>
    rw [insertAscending] at member
    split at member
    · simpa using member
    · grind
    · rcases List.mem_cons.1 member with rfl | member
      · simp
      · rcases ih member with found | found <;> simp [found]

theorem find?_insertAscending [Std.LawfulEqOrd κ] (key other : κ) (value : ν) {entries : List (κ × ν)}
    (ascending : entries.Pairwise (fun first second => compare first.1 second.1 = .lt)) :
    ((insertAscending key value entries).find? fun entry => compare other entry.1 == .eq) =
      if compare other key = .eq then some (key, value)
      else entries.find? fun entry => compare other entry.1 == .eq := by
  induction entries with
  | nil => simp [insertAscending, List.find?_cons]; split <;> simp_all
  | cons head rest ih =>
    obtain ⟨below, tail⟩ := List.pairwise_cons.1 ascending
    rw [insertAscending]
    split
    · simp only [List.find?_cons]
      split <;> simp_all
    · next equal =>
      have same := Std.LawfulEqOrd.eq_of_compare equal
      subst same
      simp only [List.find?_cons]
      split <;> simp_all
    · next greater =>
      simp only [List.find?_cons, ih tail]
      split
      · next found =>
        have same := Std.LawfulEqOrd.eq_of_compare (by simpa using found : compare other head.1 = .eq)
        subst same
        have : compare head.1 key ≠ .eq := by
          intro equal
          have := Std.LawfulEqOrd.eq_of_compare equal
          subst this
          simp at greater
        simp [this]
      · rfl

theorem get?_eq_some_iff [Std.LawfulEqOrd κ] {map : SortedMap κ ν} {key : κ} {value : ν} :
    map.get? key = some value ↔ (key, value) ∈ map.toList := by
  obtain ⟨entries, ascending⟩ := map
  show (entries.find? _).map Prod.snd = _ ↔ (key, value) ∈ entries
  induction entries with
  | nil => simp
  | cons head rest ih =>
    obtain ⟨below, tail⟩ := List.pairwise_cons.1 ascending
    rw [List.find?_cons]
    split
    · next found =>
      have same := Std.LawfulEqOrd.eq_of_compare (by simpa using found : compare key head.1 = .eq)
      subst same
      have absent : (head.1, value) ∉ rest := fun member => by
        have := below _ member
        simp at this
      simp only [Option.map_some, Option.some.injEq, List.mem_cons, absent, or_false]
      exact ⟨fun equal => by subst equal; rfl, fun equal => by rw [← equal]⟩
    · next missed =>
      rw [ih tail]
      have : (key, value) ≠ head := fun equal => by subst equal; simp at missed
      simp [this]

variable [Std.TransOrd κ] [Std.LawfulEqOrd κ]

theorem pairwise_insertAscending (key : κ) (value : ν) {entries : List (κ × ν)}
    (ascending : entries.Pairwise (fun first second => compare first.1 second.1 = .lt)) :
    (insertAscending key value entries).Pairwise
      (fun first second => compare first.1 second.1 = .lt) := by
  induction entries with
  | nil => simp [insertAscending]
  | cons head rest ih =>
    obtain ⟨below, tail⟩ := List.pairwise_cons.1 ascending
    rw [insertAscending]
    split
    · next less =>
      refine List.pairwise_cons.2 ⟨fun other member => ?_, ascending⟩
      rcases List.mem_cons.1 member with rfl | member
      · exact less
      · exact Std.TransCmp.lt_trans less (below other member)
    · next equal =>
      have same := Std.LawfulEqOrd.eq_of_compare equal
      exact List.pairwise_cons.2 ⟨fun other member => same ▸ below other member, tail⟩
    · next greater =>
      refine List.pairwise_cons.2 ⟨fun other member => ?_, ih tail⟩
      rcases mem_insertAscending member with rfl | member
      · exact Std.OrientedCmp.lt_of_gt greater
      · exact below other member

/-- The map with one more entry; an earlier value under the same key is replaced. -/
def insert (map : SortedMap κ ν) (key : κ) (value : ν) : SortedMap κ ν where
  toList := insertAscending key value map.toList
  ascending := pairwise_insertAscending key value map.ascending

/-- The map of a list's entries; of two entries with one key the later counts. -/
def ofList (entries : List (κ × ν)) : SortedMap κ ν :=
  entries.foldl (fun map entry => map.insert entry.1 entry.2) ∅

/-- The map with the value under one key, or a starting value where there is none, changed. -/
def update (map : SortedMap κ ν) (key : κ) (start : ν) (change : ν → ν) : SortedMap κ ν :=
  map.insert key (change ((map.get? key).getD start))

@[simp] theorem get?_insert (map : SortedMap κ ν) (key other : κ) (value : ν) :
    (map.insert key value).get? other =
      if compare other key = .eq then some value else map.get? other := by
  simp only [get?, insert, find?_insertAscending key other value map.ascending]
  split <;> simp

omit [Std.TransOrd κ] in
@[simp] theorem get?_erase (map : SortedMap κ ν) (key other : κ) :
    (map.erase key).get? other = if compare other key = .eq then none else map.get? other := by
  apply Option.ext
  intro value
  rw [get?_eq_some_iff]
  simp only [erase, filter, List.mem_filter, bne_iff_ne, ne_eq,
    Std.LawfulEqCmp.compare_eq_iff_eq]
  split
  · next equal => simp [Std.LawfulEqOrd.eq_of_compare equal]
  · next different =>
    have apart : key ≠ other := fun equal => different (equal ▸ Std.ReflCmp.compare_self)
    simp [get?_eq_some_iff, apart]

/-- Two maps that answer every look-up alike are equal. -/
@[ext] theorem ext {first second : SortedMap κ ν}
    (values : ∀ key, first.get? key = second.get? key) : first = second := by
  have nodup : ∀ map : SortedMap κ ν, map.toList.Nodup := fun map =>
    map.ascending.imp fun less equal => by subst equal; simp at less
  refine eq_of_toList_eq (List.Perm.eq_of_pairwise ?_ first.ascending second.ascending ?_)
  · intro left right _ _ less greater
    have := Std.TransCmp.lt_trans less greater
    simp at this
  · refine (List.perm_ext_iff_of_nodup (nodup first) (nodup second)).2 fun entry => ?_
    rw [← get?_eq_some_iff, ← get?_eq_some_iff, values]

omit [Std.TransOrd κ] in
theorem get?_ofKeys [DecidableEq κ] (keys : SortedSet κ) (value? : κ → Option ν) (key : κ) :
    (ofKeys keys value?).get? key = if key ∈ keys then value? key else none := by
  apply Option.ext
  intro value
  rw [get?_eq_some_iff]
  simp only [ofKeys, List.mem_filterMap, Option.map_eq_some_iff, Prod.mk.injEq]
  constructor
  · rintro ⟨other, member, found, equal, rfl, rfl⟩
    simp [SortedSet.mem_toList.1 member, equal]
  · intro found
    split at found
    · next member => exact ⟨key, member, value, found, rfl, rfl⟩
    · simp at found

end SortedMap

end Subdomain

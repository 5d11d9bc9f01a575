import Mathlib.Data.List.Nodup
import Mathlib.Data.List.Perm.Subperm
import Subdomain.Ordered.Map

/-!
# Sets as numberings

The members of an ascending set are numbered from 0, and the number of a member is how many members are
smaller.  A map made from a list with distinct keys holds exactly the entries of the list.
-/

namespace Subdomain

/-- A list is what stands in front of an element, the element itself, and what follows it. -/
theorem split_of_getElem? {α : Type} {values : List α} {position : Nat} {value : α}
    (found : values[position]? = some value) :
    values = values.take position ++ value :: values.drop (position + 1) := by
  rcases List.getElem?_eq_some_iff.1 found with ⟨inside, rfl⟩
  rw [← List.drop_eq_getElem_cons inside, List.take_append_drop]

namespace SortedSet

variable {set : SortedSet UInt64} {member : UInt64} {position : Nat}

/-- How many members are smaller. -/
def countBelow (set : SortedSet UInt64) (value : UInt64) : Nat := (set.filter (· < value)).size

theorem pairwise_lt (set : SortedSet UInt64) : set.toList.Pairwise (· < ·) :=
  set.ascending.imp fun less => Std.compare_eq_lt.1 less

theorem countBelow_of_getElem? (found : set.toList[position]? = some member) :
    set.countBelow member = position := by
  have inside := (List.getElem?_eq_some_iff.1 found).1
  have split := split_of_getElem? found
  have ascending := set.pairwise_lt
  rw [split, List.pairwise_append] at ascending
  rcases ascending with ⟨_, later, earlier⟩
  have below : (set.toList.take position).filter (fun value => decide (value < member)) =
      set.toList.take position := by
    apply List.filter_eq_self.2
    intro value inFront
    exact decide_eq_true (earlier value inFront member List.mem_cons_self)
  have above : (member :: set.toList.drop (position + 1)).filter
      (fun value => decide (value < member)) = [] := by
    apply List.filter_eq_nil_iff.2
    intro value inBack
    rw [decide_eq_true_eq]
    cases List.mem_cons.1 inBack with
    | inl same => exact same ▸ UInt64.lt_irrefl _
    | inr inBack => exact UInt64.lt_asymm ((List.pairwise_cons.1 later).1 value inBack)
  have size : set.countBelow member =
      (set.toList.filter fun value => decide (value < member)).length := rfl
  rw [size, split, List.filter_append, below, above, List.append_nil, List.length_take]
  omega

/-- A member stands at its number. -/
theorem getElem?_countBelow (inside : member ∈ set) :
    set.toList[set.countBelow member]? = some member := by
  rcases List.mem_iff_getElem?.1 (mem_toList.2 inside) with ⟨position, found⟩
  rw [countBelow_of_getElem? found, found]

/-- What is smaller than a member stands in front of it. -/
theorem mem_front {front back : List UInt64} (split : set.toList = front ++ member :: back)
    {smaller : UInt64} (inside : smaller ∈ set) (less : smaller < member) : smaller ∈ front := by
  have ascending := set.pairwise_lt
  rw [split, List.pairwise_append] at ascending
  have listed : smaller ∈ front ++ member :: back := split ▸ mem_toList.2 inside
  rcases List.mem_append.1 listed with inFront | inBack
  · exact inFront
  · cases List.mem_cons.1 inBack with
    | inl same => exact absurd less (same ▸ UInt64.lt_irrefl _)
    | inr later =>
        have greater := (List.pairwise_cons.1 ascending.2.1).1 smaller later
        exact absurd less (UInt64.lt_asymm greater)

/-- A set of words below a bound has no more members than the bound says. -/
theorem size_le {bound : Nat} (below : ∀ value ∈ set, value.toNat < bound) : set.size ≤ bound := by
  have distinct : (set.toList.map UInt64.toNat).Nodup := by
    apply List.Nodup.map_on _ (nodup_toList _)
    intro first _ second _ same
    exact UInt64.toNat_inj.1 same
  have inRange : set.toList.map UInt64.toNat ⊆ List.range bound := by
    intro number member
    rcases List.mem_map.1 member with ⟨value, inside, rfl⟩
    exact List.mem_range.2 (below value inside)
  have length := (List.Nodup.subperm distinct inRange).length_le
  rwa [List.length_map, List.length_range] at length

theorem size_le_size {other : SortedSet UInt64} (contained : ∀ value ∈ set, value ∈ other) :
    set.size ≤ other.size :=
  (List.Nodup.subperm (nodup_toList set) contained).length_le

theorem countBelow_le (set : SortedSet UInt64) (value : UInt64) :
    set.countBelow value ≤ value.toNat := by
  apply size_le
  intro smaller inside
  rw [mem_filter, decide_eq_true_eq] at inside
  exact UInt64.lt_iff_toNat_lt.1 inside.2

/-- Numbers fit a word, since no set has more members than there are words. -/
theorem toNat_countBelow (set : SortedSet UInt64) (value : UInt64) :
    (UInt64.ofNat (set.countBelow value)).toNat = set.countBelow value :=
  UInt64.toNat_ofNat_of_lt' (Nat.lt_of_le_of_lt (set.countBelow_le value) value.toNat_lt)

theorem idxOf?_toList (set : SortedSet UInt64) (value : UInt64) :
    set.toList.idxOf? value = if value ∈ set then some (set.countBelow value) else none := by
  split
  · next member =>
    cases found : set.toList.idxOf? value with
    | none => exact absurd member (List.idxOf?_eq_none_iff.1 found)
    | some position =>
        rcases List.idxOf?_eq_some_iff.1 found with ⟨inside, located, _⟩
        have place : set.toList[position]? = some value := by
          rw [List.getElem?_eq_getElem inside, located]
        rw [countBelow_of_getElem? place]
  · next absent => exact List.idxOf?_eq_none_iff.2 absent

/-- Members next to their positions are members next to their numbers. -/
theorem zipIdx_toList (set : SortedSet UInt64) :
    set.toList.zipIdx = set.toList.map fun value => (value, set.countBelow value) := by
  apply List.ext_getElem?
  intro position
  rw [List.getElem?_zipIdx, List.getElem?_map]
  cases found : set.toList[position]? with
  | none => rfl
  | some value => simp [countBelow_of_getElem? found]

/-- The members, each with the position at which it stands. -/
def numbering (set : SortedSet UInt64) : SortedMap UInt64 UInt64 :=
  .ofKeys set fun value => some (.ofNat (set.countBelow value))

theorem get?_numbering (set : SortedSet UInt64) (value : UInt64) :
    set.numbering.get? value =
      if value ∈ set then some (.ofNat (set.countBelow value)) else none :=
  SortedMap.get?_ofKeys ..

theorem keys_numbering (set : SortedSet UInt64) : set.numbering.keys = set := by
  apply SortedSet.eq_of_toList_eq
  rw [numbering, SortedMap.keys, SortedMap.ofKeys]
  simp [Function.comp_def]

/-- An ascending list is the list of its own set. -/
theorem toList_ofList {values : List UInt64} (ascends : values.Pairwise (· < ·)) :
    (ofList values).toList = values := by
  have ascending : values.Pairwise fun first second => compare first second = .lt :=
    ascends.imp Std.compare_eq_lt.2
  exact congrArg toList (ofList_toList ⟨values, ascending⟩)

section

variable {α : Type} [Ord α] [Std.TransOrd α] [Std.LawfulEqOrd α] {values : List α}

theorem inter_comm [DecidableEq α] (first second : SortedSet α) : first ∩ second = second ∩ first := by
  ext value
  rw [mem_inter, mem_inter, and_comm]

theorem subperm_toList_ofList (values : List α) : (ofList values).toList.Subperm values := by
  apply List.Nodup.subperm (nodup_toList _)
  intro value member
  exact mem_ofList.1 member

/-- A set made from a list has no more members, and as many if nothing is repeated. -/
theorem size_ofList_le (values : List α) : (ofList values).size ≤ values.length :=
  (subperm_toList_ofList values).length_le

theorem size_ofList (distinct : values.Nodup) : (ofList values).size = values.length := by
  apply List.Perm.length_eq
  apply (List.perm_ext_iff_of_nodup (nodup_toList _) distinct).2
  intro value
  rw [mem_toList, mem_ofList]

theorem size_ofList_eq_iff : (ofList values).size = values.length ↔ values.Nodup := by
  constructor
  · intro same
    have permuted := (subperm_toList_ofList values).perm_of_length_le (Nat.le_of_eq same.symm)
    exact permuted.nodup_iff.1 (nodup_toList _)
  · exact size_ofList

end

end SortedSet

namespace SortedMap

variable {κ : Type} {ν : Type} [Ord κ] [Std.TransOrd κ] [Std.LawfulEqOrd κ]

/-- Look-ups in a map to which entries are added: by induction on the entries, for any map to start
from that has none of their keys. -/
theorem get?_foldl_insert {entries : List (κ × ν)} (distinct : (entries.map Prod.fst).Nodup)
    {map : SortedMap κ ν} (fresh : ∀ entry ∈ entries, map.get? entry.1 = none) {key : κ}
    {value : ν} :
    (entries.foldl (fun map entry => map.insert entry.1 entry.2) map).get? key = some value ↔
      (key, value) ∈ entries ∨ map.get? key = some value := by
  induction entries generalizing map with
  | nil => simp
  | cons head rest ih =>
      rcases head with ⟨headKey, headValue⟩
      rcases List.nodup_cons.1 distinct with ⟨apart, distinct⟩
      have stillFresh : ∀ entry ∈ rest, (map.insert headKey headValue).get? entry.1 = none := by
        intro entry member
        rw [get?_insert, if_neg]
        · exact fresh entry (List.mem_cons_of_mem _ member)
        · intro equal
          exact apart (List.mem_map.2 ⟨entry, member, Std.LawfulEqOrd.eq_of_compare equal⟩)
      have absent := fresh (headKey, headValue) List.mem_cons_self
      rw [List.foldl_cons, ih distinct stillFresh, get?_insert, List.mem_cons, Prod.mk.injEq]
      by_cases equal : compare key headKey = .eq
      · have same := Std.LawfulEqOrd.eq_of_compare equal
        subst same
        have notLater : (key, value) ∉ rest := fun member =>
          apart (List.mem_map.2 ⟨(key, value), member, rfl⟩)
        rw [if_pos equal, absent]
        simp [notLater, eq_comm]
      · have different : key ≠ headKey := fun same => equal (same ▸ Std.ReflCmp.compare_self)
        rw [if_neg equal]
        simp [different]

/-- A map made from a list with distinct keys holds what the list does. -/
theorem get?_ofList_eq_some_iff {entries : List (κ × ν)} (distinct : (entries.map Prod.fst).Nodup)
    {key : κ} {value : ν} : (ofList entries).get? key = some value ↔ (key, value) ∈ entries := by
  rw [ofList, get?_foldl_insert distinct]
  · simp
  · intro entry _
    rfl

/-- Of several entries with one key the last counts: by induction on the entries. -/
theorem get?_foldl_insert_or [DecidableEq κ] (entries : List (κ × ν)) (map : SortedMap κ ν)
    (key : κ) :
    (entries.foldl (fun map entry => map.insert entry.1 entry.2) map).get? key =
      ((entries.reverse.find? (·.1 == key)).map Prod.snd).or (map.get? key) := by
  induction entries generalizing map with
  | nil => rfl
  | cons head rest ih =>
      rw [List.foldl_cons, ih, get?_insert, List.reverse_cons, List.find?_append]
      cases rest.reverse.find? (·.1 == key) with
      | some entry => rfl
      | none =>
          by_cases same : head.1 = key
          · subst same
            simp [Std.ReflCmp.compare_self]
          · have apart : compare key head.1 ≠ .eq := fun equal =>
              same (Std.LawfulEqOrd.eq_of_compare equal).symm
            simp [same, apart]

theorem get?_ofList [DecidableEq κ] (entries : List (κ × ν)) (key : κ) :
    (ofList entries).get? key = (entries.reverse.find? (·.1 == key)).map Prod.snd := by
  have found := get?_foldl_insert_or entries ∅ key
  rw [get?_empty, Option.or_none] at found
  exact found

omit [Std.TransOrd κ] in
theorem mem_keys_iff {map : SortedMap κ ν} {key : κ} : key ∈ map.keys ↔ map.get? key ≠ none := by
  constructor
  · intro member
    rcases List.mem_map.1 member with ⟨⟨_, value⟩, listed, rfl⟩
    rw [get?_eq_some_iff.2 listed]
    exact Option.some_ne_none value
  · intro present
    rcases Option.ne_none_iff_exists'.1 present with ⟨value, found⟩
    exact List.mem_map.2 ⟨_, get?_eq_some_iff.1 found, rfl⟩

omit [Std.TransOrd κ] [Std.LawfulEqOrd κ] in
theorem size_keys (map : SortedMap κ ν) : map.keys.size = map.size := List.length_map _

theorem ofList_toList (map : SortedMap κ ν) : ofList map.toList = map := by
  have distinct : (map.toList.map Prod.fst).Nodup := by
    apply List.pairwise_map.2
    apply map.ascending.imp
    intro first second less same
    have equal : compare first.1 second.1 = .eq := same ▸ Std.ReflCmp.compare_self
    rw [less] at equal
    cases equal
  apply SortedMap.ext
  intro key
  apply Option.ext
  intro value
  rw [get?_ofList_eq_some_iff distinct, get?_eq_some_iff]

/-- The entries of one map written over another. -/
theorem get?_foldl_insert_toList [DecidableEq κ] (entries map : SortedMap κ ν) (key : κ) :
    (entries.toList.foldl (fun map entry => map.insert entry.1 entry.2) map).get? key =
      (entries.get? key).or (map.get? key) := by
  rw [get?_foldl_insert_or, ← get?_ofList, ofList_toList]

end SortedMap

end Subdomain

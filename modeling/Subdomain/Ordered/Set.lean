/-!
# Ordered sets

A finite set of ordered values, kept as the strictly ascending list of its members. Every id set,
rank set and record set of the library is one of these: the list fixes the order in which ids are
numbered and messages are filled.

Main statements: membership in each operation (`mem_insert`, `mem_ofList`, `mem_union`, `mem_inter`,
`mem_sdiff`, `mem_filter`), and `ext`: two sets with the same members are equal.
-/

namespace Subdomain

universe u

/-- A finite set of ordered values, as the strictly ascending list of its members. -/
structure SortedSet (α : Type u) [Ord α] where
  toList : List α := []
  ascending : toList.Pairwise (fun first second => compare first second = .lt) := by simp

namespace SortedSet

variable {α : Type u} [Ord α]

/-- Put a value at its place in an ascending list; a value already there is kept once. -/
def insertAscending (value : α) : List α → List α
  | [] => [value]
  | head :: rest =>
    match compare value head with
    | .lt => value :: head :: rest
    | .eq => head :: rest
    | .gt => head :: insertAscending value rest

instance : Membership α (SortedSet α) where
  mem set value := value ∈ set.toList

instance : EmptyCollection (SortedSet α) where
  emptyCollection := {}

instance : Inhabited (SortedSet α) where
  default := ∅

theorem mem_toList {set : SortedSet α} {value : α} : value ∈ set.toList ↔ value ∈ set := Iff.rfl

@[simp] theorem toList_empty : (∅ : SortedSet α).toList = [] := rfl

@[simp] theorem not_mem_empty (value : α) : value ∉ (∅ : SortedSet α) := by
  simp [← mem_toList]

theorem eq_of_toList_eq {first second : SortedSet α} (equal : first.toList = second.toList) :
    first = second := by
  cases first; cases second; simp_all

instance [DecidableEq α] : DecidableEq (SortedSet α) := fun first second =>
  decidable_of_iff (first.toList = second.toList) ⟨eq_of_toList_eq, fun equal => equal ▸ rfl⟩

instance [DecidableEq α] (value : α) (set : SortedSet α) : Decidable (value ∈ set) :=
  inferInstanceAs (Decidable (value ∈ set.toList))

/-- Number of members. -/
def size (set : SortedSet α) : Nat := set.toList.length

/-- Whether the set has no member. -/
def isEmpty (set : SortedSet α) : Bool := set.toList.isEmpty

/-- The members that pass a test. -/
def filter (test : α → Bool) (set : SortedSet α) : SortedSet α where
  toList := set.toList.filter test
  ascending := set.ascending.filter test

@[simp] theorem mem_filter {test : α → Bool} {set : SortedSet α} {value : α} :
    value ∈ set.filter test ↔ value ∈ set ∧ test value = true := by
  simp [← mem_toList, filter]

theorem isEmpty_iff {set : SortedSet α} : set.isEmpty = true ↔ ∀ value, value ∉ set := by
  simp [isEmpty, ← mem_toList, List.eq_nil_iff_forall_not_mem]

instance [DecidableEq α] : Inter (SortedSet α) where
  inter first second := first.filter (· ∈ second)

instance [DecidableEq α] : SDiff (SortedSet α) where
  sdiff first second := first.filter (· ∉ second)

@[simp] theorem mem_inter [DecidableEq α] {first second : SortedSet α} {value : α} :
    value ∈ first ∩ second ↔ value ∈ first ∧ value ∈ second := by
  show value ∈ first.filter _ ↔ _
  simp

@[simp] theorem mem_sdiff [DecidableEq α] {first second : SortedSet α} {value : α} :
    value ∈ first \ second ↔ value ∈ first ∧ value ∉ second := by
  show value ∈ first.filter _ ↔ _
  simp

theorem nodup_toList [Std.LawfulEqOrd α] (set : SortedSet α) : set.toList.Nodup :=
  set.ascending.imp fun less equal => by subst equal; simp at less

theorem mem_insertAscending [Std.LawfulEqOrd α] {value other : α} {values : List α} :
    other ∈ insertAscending value values ↔ other = value ∨ other ∈ values := by
  induction values with
  | nil => simp [insertAscending]
  | cons head rest ih =>
    rw [insertAscending]
    split
    · simp
    · next equal =>
      have := Std.LawfulEqOrd.eq_of_compare equal
      subst this
      simp
    · simp only [List.mem_cons, ih]
      grind

variable [Std.TransOrd α] [Std.LawfulEqOrd α]

theorem pairwise_insertAscending (value : α) {values : List α}
    (ascending : values.Pairwise (fun first second => compare first second = .lt)) :
    (insertAscending value values).Pairwise (fun first second => compare first second = .lt) := by
  induction values with
  | nil => simp [insertAscending]
  | cons head rest ih =>
    obtain ⟨below, tail⟩ := List.pairwise_cons.1 ascending
    rw [insertAscending]
    split
    · next less =>
      refine List.pairwise_cons.2 ⟨fun other member => ?_, ascending⟩
      rcases List.mem_cons.1 member with rfl | member
      · exact less
      · exact Std.TransCmp.lt_trans less (below other member)
    · exact ascending
    · next greater =>
      refine List.pairwise_cons.2 ⟨fun other member => ?_, ih tail⟩
      rcases mem_insertAscending.1 member with rfl | member
      · exact Std.OrientedCmp.lt_of_gt greater
      · exact below other member

/-- The set with one more member. -/
def insert (set : SortedSet α) (value : α) : SortedSet α where
  toList := insertAscending value set.toList
  ascending := pairwise_insertAscending value set.ascending

/-- The set of a list's values, in whatever order and however often they occur. -/
def ofList (values : List α) : SortedSet α :=
  values.foldr (fun value set => set.insert value) ∅

/-- The set with a single member. -/
def singleton (value : α) : SortedSet α := ofList [value]

instance : Union (SortedSet α) where
  union first second := second.toList.foldr (fun value set => set.insert value) first

@[simp] theorem mem_insert {set : SortedSet α} {value other : α} :
    other ∈ set.insert value ↔ other = value ∨ other ∈ set := mem_insertAscending

theorem mem_foldr_insert {values : List α} {set : SortedSet α} {value : α} :
    value ∈ values.foldr (fun next set => set.insert next) set ↔ value ∈ values ∨ value ∈ set := by
  induction values with
  | nil => simp
  | cons head rest ih => simp [ih, or_assoc]

@[simp] theorem mem_ofList {values : List α} {value : α} :
    value ∈ ofList values ↔ value ∈ values := by
  simp [ofList, mem_foldr_insert]

@[simp] theorem mem_singleton {value other : α} : other ∈ singleton value ↔ other = value := by
  simp [singleton]

@[simp] theorem mem_union {first second : SortedSet α} {value : α} :
    value ∈ first ∪ second ↔ value ∈ first ∨ value ∈ second := by
  show value ∈ second.toList.foldr _ first ↔ _
  rw [mem_foldr_insert, mem_toList, or_comm]

/-- Two sets with the same members are equal. -/
@[ext] theorem ext {first second : SortedSet α}
    (members : ∀ value, value ∈ first ↔ value ∈ second) : first = second := by
  refine eq_of_toList_eq (List.Perm.eq_of_pairwise ?_ first.ascending second.ascending ?_)
  · intro left right _ _ less greater
    have := Std.TransCmp.lt_trans less greater
    simp at this
  · exact (List.perm_ext_iff_of_nodup first.nodup_toList second.nodup_toList).2 members

@[simp] theorem ofList_toList (set : SortedSet α) : ofList set.toList = set := by
  ext value
  simp [mem_toList]

end SortedSet

end Subdomain

/-!
# Sorting by a word

Lists put in ascending order of a key that is a word. Equal keys are all kept.

Main statements: the sorted list has the same elements (`perm_sortOn`) and its keys ascend
(`pairwise_sortOn`).
-/

namespace Subdomain

variable {α : Type} (key : α → UInt64)

/-- Put an element before the first whose key its own does not exceed. -/
def placeOn (element : α) : List α → List α
  | [] => [element]
  | head :: rest =>
    if key head < key element then head :: placeOn element rest else element :: head :: rest

/-- The elements in ascending order of their keys. -/
def sortOn (elements : List α) : List α := elements.foldr (placeOn key) []

theorem perm_placeOn (element : α) (elements : List α) :
    (placeOn key element elements).Perm (element :: elements) := by
  induction elements with
  | nil => exact .refl _
  | cons head rest ih =>
    rw [placeOn]
    split
    · exact (ih.cons head).trans (.swap ..)
    · exact .refl _

theorem perm_sortOn (elements : List α) : (sortOn key elements).Perm elements := by
  induction elements with
  | nil => exact .refl _
  | cons head rest ih => exact (perm_placeOn key head _).trans (ih.cons head)

theorem pairwise_placeOn (element : α) {elements : List α}
    (ascending : elements.Pairwise fun first second => key first ≤ key second) :
    (placeOn key element elements).Pairwise fun first second => key first ≤ key second := by
  induction elements with
  | nil => simp [placeOn]
  | cons head rest ih =>
    have ⟨below, tail⟩ := List.pairwise_cons.1 ascending
    rw [placeOn]
    split
    · next less =>
      refine List.pairwise_cons.2 ⟨fun other member => ?_, ih tail⟩
      cases List.mem_cons.1 ((perm_placeOn key element rest).mem_iff.1 member) with
      | inl equal => exact equal ▸ UInt64.le_of_lt less
      | inr member => exact below other member
    · next less =>
      have least := UInt64.not_lt.1 less
      refine List.pairwise_cons.2 ⟨fun other member => ?_, ascending⟩
      cases List.mem_cons.1 member with
      | inl equal => exact equal ▸ least
      | inr member => exact UInt64.le_trans least (below other member)

theorem pairwise_sortOn (elements : List α) :
    (sortOn key elements).Pairwise fun first second => key first ≤ key second := by
  induction elements with
  | nil => exact .nil
  | cons head rest ih => exact pairwise_placeOn key head ih

end Subdomain

import Subdomain.Proofs.Halo.VertexOwnership

/-!
# The colorings of a group agree

Nothing is assumed of the adjacencies and of the cells that the ranks own: if all ranks succeed, their
colorings agree.
-/

namespace Subdomain

open Subdomain.Group

namespace Decomposition

/-- Whenever the cells of a group are colored on every rank, the colorings are those of the ranks' cells
and agree, with either depth of the ghost layer; and whenever entities of any dimension are then colored
on every rank, their colorings agree as well. -/
theorem colorings_agree (parts : Decomposition) (size : Rank) (patience : Patience) :
    (∀ halos : Seat → PrimaryHalo,
      Completes patience size (fun seat =>
          PrimaryHalo.color seat (parts.adjacency seat) (parts.primary seat) parts.config) halos →
        (∀ seat : Seat, seat.size = size → (halos seat).coloring.primary = parts.primary seat) ∧
        Consistent size (fun seat => (halos seat).coloring) fun seat => (halos seat).summary) ∧
    ∀ (dim : Nat) (results : Seat → PrimaryHalo × Coloring × Summary),
      Completes patience size (parts.colorWith dim) results →
        Consistent size (fun seat => (results seat).1.coloring) (fun seat => (results seat).1.summary) ∧
        Consistent size (fun seat => (results seat).2.1) fun seat => (results seat).2.2 := by
  have cells : parts.Colorable size → ∀ halos : Seat → PrimaryHalo,
      (∀ seat : Seat, seat.size = size → parts.halo size seat = halos seat) →
      Consistent size (fun seat => (halos seat).coloring) fun seat => (halos seat).summary := by
    intro colorable halos same
    apply Coloring.consistent_of_assembled _ (PrimaryHalo.lawful_cellCopies colorable)
    · intro seat inGroup
      rw [← same seat inGroup]
      rfl
    · intro seat inGroup
      rw [← same seat inGroup]
      exact PrimaryHalo.coloring_halo parts seat
  constructor
  · intro halos completes
    rcases completes_color_iff.1 completes with ⟨colorable, same⟩
    constructor
    · intro seat inGroup
      rw [← same seat inGroup, PrimaryHalo.coloring_halo, cellColoring, Coloring.primary_assemble]
    · exact cells colorable halos same
  · intro dim results completes
    rcases completes_colorWith_iff.1 completes with ⟨colorable, derivable, same⟩
    constructor
    · apply cells colorable (fun seat => (results seat).1)
      intro seat inGroup
      exact congrArg Prod.fst (same seat inGroup)
    · apply Coloring.consistent_of_assembled _ (Derivation.lawful_copies derivable.answerable)
      · intro seat inGroup
        rw [← same seat inGroup]
      · intro seat inGroup
        rw [← same seat inGroup]
        rfl

open VertexMesh in
theorem colorable_pair : pair.Colorable 2 :=
  colorable_of_closed faithful_twoCells inMemory_twoCells disjoint_pair closed_pair

open VertexMesh in
theorem derivable_pair : (pair.derivation 2 0).Derivable 2 :=
  derivable_of_zero faithful_twoCells inMemory_twoCells disjoint_pair closed_pair rfl

open VertexMesh in
/-- Two cells on two ranks, which give up on peers that have ended. -/
theorem colorings_agree_pair :
    ∃ (halos : Seat → PrimaryHalo) (results : Seat → PrimaryHalo × Coloring × Summary),
      Completes .limited 2 (fun seat =>
        PrimaryHalo.color seat (pair.adjacency seat) (pair.primary seat) pair.config) halos ∧
      ((∀ seat : Seat, seat.size = 2 → (halos seat).coloring.primary = pair.primary seat) ∧
        Consistent 2 (fun seat => (halos seat).coloring) fun seat => (halos seat).summary) ∧
      Completes .limited 2 (pair.colorWith 0) results ∧
      Consistent 2 (fun seat => (results seat).1.coloring) (fun seat => (results seat).1.summary) ∧
      Consistent 2 (fun seat => (results seat).2.1) fun seat => (results seat).2.2 := by
  have halos : Completes .limited 2 (fun seat =>
      PrimaryHalo.color seat (pair.adjacency seat) (pair.primary seat) pair.config) (pair.halo 2) :=
    completes_color_iff.2 ⟨colorable_pair, fun _ _ => rfl⟩
  have results : Completes .limited 2 (pair.colorWith 0) _ :=
    completes_colorWith_iff.2 ⟨colorable_pair, derivable_pair, fun _ _ => rfl⟩
  exact ⟨_, _, halos, (colorings_agree pair 2 .limited).1 _ halos, results,
    (colorings_agree pair 2 .limited).2 0 _ results⟩

end Decomposition

end Subdomain

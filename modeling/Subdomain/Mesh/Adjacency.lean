import Subdomain.Error

/-!
# Adjacency

A coloring never looks at a mesh itself. It asks an adjacency four questions, and any answers will
do, consistent or not.
-/

namespace Subdomain

/-- Answers to the questions that a coloring asks about a mesh. -/
structure Adjacency where
  /-- Dimension of the cells. -/
  cellDim : Nat
  /-- The cells that share an entity of a dimension with one of some cells. A cell itself is among
  them only if it is adjacent to another of them. -/
  neighbors : IdSet → Nat → IdSet
  /-- The entities of a dimension that some cells reference. -/
  entityClosure : IdSet → Nat → Except Error IdSet
  /-- The cells that reference an entity of a dimension. -/
  referencers : Nat → EntityId → Except Error IdSet

namespace Adjacency

/-- Some cells and their neighbors. -/
def closure (adjacency : Adjacency) (cells : IdSet) (thruDim : Nat) : IdSet :=
  cells ∪ adjacency.neighbors cells thruDim

end Adjacency

end Subdomain

import WorkPlan.Step.Basic

/-!
# Dependency graphs

The nodes are step numbers in the order in which they were found.  An edge leads from a dependency
to the step that depends on it; each is listed once, in the order in which they were drawn.
-/

namespace WorkPlan

structure Graph where
  nodes : List Nat := []
  /-- Pairs of a dependency and its dependent. -/
  edges : List (Nat × Nat) := []
deriving DecidableEq, Repr

namespace Graph

/-- Draws an edge, unless it is there. -/
def connect (g : Graph) (dependency dependent : Nat) : Graph :=
  if (dependency, dependent) ∈ g.edges then g
  else { g with edges := g.edges ++ [(dependency, dependent)] }

/-- The steps that depend on a step, the oldest edge first. -/
def dependents (g : Graph) (i : Nat) : List Nat :=
  g.edges.filterMap fun edge => if edge.1 = i then some edge.2 else none

/-- The steps that a step depends on, the oldest edge first. -/
def dependencies (g : Graph) (i : Nat) : List Nat :=
  g.edges.filterMap fun edge => if edge.2 = i then some edge.1 else none

end Graph

end WorkPlan

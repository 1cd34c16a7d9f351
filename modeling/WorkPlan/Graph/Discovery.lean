import WorkPlan.Graph.Basic

/-!
# Finding the steps of a plan

Starting with the roots, every step that is held by number is found once, however many ways lead to
it.  Found steps wait on a stack for a look at their own dependencies, so the last found is looked
at first.  A look costs one unit of fuel; every step is looked at once, so one unit for each root and
each step of the catalog is enough.
-/

namespace WorkPlan

/-- A graph in the making, and the found steps whose dependencies are not drawn yet. -/
structure Discovery where
  graph : Graph := {}
  pending : List Nat := []
deriving DecidableEq, Repr

namespace Discovery

/-- Takes in a step, unless it is already found. -/
def find (s : Discovery) (i : Nat) : Discovery :=
  if i ∈ s.graph.nodes then s
  else { graph := { s.graph with nodes := s.graph.nodes ++ [i] }, pending := i :: s.pending }

/-- Takes in a dependency and draws its edge. -/
def draw (dependent : Nat) (s : Discovery) (dependency : Nat) : Discovery :=
  let s := s.find dependency
  { s with graph := s.graph.connect dependency dependent }

/-- Looks at the step on top of the stack. -/
def look (c : Catalog) (s : Discovery) : Discovery :=
  match s.pending with
  | [] => s
  | i :: rest => (c.handles i).foldl (draw i) { s with pending := rest }

def run (c : Catalog) : Nat → Discovery → Discovery
  | 0, s => s
  | fuel + 1, s => if s.pending.isEmpty then s else run c fuel (s.look c)

def start (roots : List Nat) : Discovery := roots.foldl find {}

end Discovery

/-- The graph of all steps that the roots depend on by number, named dependencies left out. -/
def Graph.discover (c : Catalog) (roots : List Nat) : Graph :=
  (Discovery.run c (roots.length + c.size) (.start roots)).graph

end WorkPlan

import WorkPlan.Graph.Validation

/-!
# Layers

A step without dependencies is in layer 0, any other one in the layer after the last of its
dependencies.  A layer is sorted by name, and steps of one name by number.
-/

namespace WorkPlan.OrderedGraph

/-- One more than the greatest of some depths; 0 where there are none. -/
def above (depths : List Nat) : Nat := depths.foldl (fun depth d => max depth (d + 1)) 0

/-- The depths of the steps of an order, the last one first. -/
def depths (g : OrderedGraph) : List (Nat × Nat) :=
  g.order.foldl
    (fun known i =>
      (i, above ((g.graph.dependencies i).map fun j => (known.lookup j).getD 0)) :: known) []

def depth (g : OrderedGraph) (i : Nat) : Nat := (g.depths.lookup i).getD 0

/-- Whether a step may stand before another in a layer. -/
def before (c : Catalog) (i j : Nat) : Bool :=
  decide (c.name i < c.name j) || (decide (c.name i = c.name j) && decide (i ≤ j))

def layers (c : Catalog) (g : OrderedGraph) : List (List Nat) :=
  let depths := g.depths
  let depthOf (i : Nat) := (depths.lookup i).getD 0
  (List.range (above (g.order.map depthOf))).map fun k =>
    (g.order.filter fun i => depthOf i = k).mergeSort (before c)

end WorkPlan.OrderedGraph

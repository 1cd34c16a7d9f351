import WorkPlan.Graph.Discovery
import WorkPlan.Graph.Order

/-!
# Validated graphs

Three faults are looked for in turn: two steps of one name, a dependency by a name that no step
bears, and a cycle.
-/

namespace WorkPlan

inductive PlanError
  | cycle (step : String)
  | duplicateName (name : String)
  | unknownDependency (step dependency : String)
  | targetsAlreadySet
deriving DecidableEq, Repr

namespace PlanError

def message : PlanError → String
  | .cycle step => "cycle detected involving step '" ++ step ++ "'"
  | .duplicateName name => "duplicate step name: '" ++ name ++ "'"
  | .unknownDependency step dependency =>
    "step '" ++ step ++ "' depends on unknown step '" ++ dependency ++ "'"
  | .targetsAlreadySet => "target resolver already set"

end PlanError

/-- The first of some names in the order of names. -/
def leastName? : List String → Option String
  | [] => none
  | name :: rest =>
    match leastName? rest with
    | none => some name
    | some other => if other < name then some other else some name

namespace Graph

/-- The names that two or more nodes bear. -/
def sharedNames (c : Catalog) (g : Graph) : List String :=
  let names := g.nodes.map c.name
  names.filter fun name => decide (1 < names.count name)

def named? (c : Catalog) (g : Graph) (name : String) : Option Nat :=
  g.nodes.find? fun i => c.name i = name

/-- The edges for the dependencies by name, or the first such dependency that no node bears. -/
def namedEdges (c : Catalog) (g : Graph) : Except PlanError (List (Nat × Nat)) :=
  (g.nodes.flatMap fun i => (c.step i).namedWaits.map fun name => (i, name)).mapM
    fun (i, name) =>
      match g.named? c name with
      | some j => .ok (j, i)
      | none => .error (.unknownDependency (c.name i) name)

end Graph

/-- A graph without faults, and its nodes with every dependency before its dependents. -/
structure OrderedGraph where
  graph : Graph
  order : List Nat
deriving DecidableEq, Repr

namespace OrderedGraph

/-- The graph of everything that the roots depend on, if it has no fault. -/
def build (c : Catalog) (roots : List Nat) : Except PlanError OrderedGraph := do
  let found := Graph.discover c roots
  if let some name := leastName? (found.sharedNames c) then throw (.duplicateName name)
  let named ← found.namedEdges c
  let graph := named.foldl (fun g edge => g.connect edge.1 edge.2) found
  match graph.order with
  | .ok order => return { graph, order }
  | .error i => throw (.cycle (c.name i))

def size (g : OrderedGraph) : Nat := g.graph.nodes.length

def isEmpty (g : OrderedGraph) : Bool := g.graph.nodes.isEmpty

def edgeCount (g : OrderedGraph) : Nat := g.graph.edges.length

end OrderedGraph

end WorkPlan

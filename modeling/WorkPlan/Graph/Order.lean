import WorkPlan.Graph.Basic

/-!
# Orders that respect dependencies

A sweep goes depth first from every node to its dependents and puts each node in front of the order
when all that depend on it are there.  A node that depends on itself ends the sweep.  The order is
then checked: the first node that stands before one of its dependencies tells of a cycle through
that dependency.
-/

namespace WorkPlan

structure Sweep where
  seen : List Nat := []
  /-- The nodes that are done, the last one first. -/
  order : List Nat := []
  stack : List Nat := []
deriving DecidableEq, Repr

namespace Sweep

/--
Looks at the top of the stack.  A node that was not seen puts its unseen dependents above itself,
the one with the oldest edge on top; a seen one is taken off and put in front of the order.
-/
def look (g : Graph) (s : Sweep) : Except Nat Sweep :=
  match s.stack with
  | [] => .ok s
  | i :: rest =>
    if i ∈ s.seen then
      .ok { s with order := if i ∈ s.order then s.order else i :: s.order, stack := rest }
    else if i ∈ g.dependents i then .error i
    else
      let seen := i :: s.seen
      .ok { s with seen, stack := (g.dependents i).filter (· ∉ seen) ++ i :: rest }

def run (g : Graph) : Nat → Sweep → Except Nat Sweep
  | 0, s => .ok s
  | fuel + 1, s => if s.stack.isEmpty then .ok s else s.look g >>= run g fuel

/-- Enough for one sweep: every node is seen once and taken off once for each edge and start. -/
def fuel (g : Graph) : Nat := 2 * g.nodes.length + g.edges.length

/-- Sweeps from a node, unless it was seen. -/
def start (g : Graph) (s : Sweep) (i : Nat) : Except Nat Sweep :=
  if i ∈ s.seen then .ok s else run g (fuel g) { s with stack := [i] }

end Sweep

namespace Graph

/-- The nodes in the order of a whole sweep, or a node that depends on itself. -/
def sweep (g : Graph) : Except Nat (List Nat) := do
  let s ← g.nodes.foldlM (Sweep.start g) {}
  return s.order

/-- The dependency that the first misplaced node of an order stands before. -/
def misplaced? (g : Graph) (placed : List Nat) : List Nat → Option Nat
  | [] => none
  | i :: rest =>
    match (g.dependencies i).find? fun j => decide (j ≠ i) && decide (j ∉ placed) with
    | some j => some j
    | none => g.misplaced? (i :: placed) rest

/-- The nodes in an order with every dependency before its dependents, or a node on a cycle. -/
def order (g : Graph) : Except Nat (List Nat) := do
  let found ← g.sweep
  match g.misplaced? [] found with
  | some i => throw i
  | none => return found

end Graph

end WorkPlan

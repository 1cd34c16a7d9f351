import Mathlib.Logic.Relation
import Mathlib.Tactic
import WorkPlan.Graph.Basic

/-!
# Edges and orders

A path follows edges from a dependency to a step that depends on it in the end.  An order
respects a graph when every dependency of a node stands before the node, and only a graph
without cycles can be respected.
-/

namespace WorkPlan

theorem Graph.mem_dependents
    {g : Graph} {i j : Nat} :
    j ∈ g.dependents i ↔ (i, j) ∈ g.edges := by
  simp [Graph.dependents, List.mem_filterMap]

theorem Graph.mem_dependencies
    {g : Graph} {i j : Nat} :
    j ∈ g.dependencies i ↔ (j, i) ∈ g.edges := by
  simp [Graph.dependencies, List.mem_filterMap]

@[simp] theorem Graph.connect_nodes (g : Graph) (dependency dependent : Nat) :
    (g.connect dependency dependent).nodes = g.nodes := by
  unfold Graph.connect
  split <;> rfl

@[simp] theorem Graph.mem_connect_edges
    (g : Graph) (dependency dependent : Nat) (edge : Nat × Nat) :
    edge ∈ (g.connect dependency dependent).edges ↔
      edge ∈ g.edges ∨ edge = (dependency, dependent) := by
  unfold Graph.connect
  split
  next hpresent =>
    constructor
    · exact Or.inl
    · rintro (hedge | rfl)
      · exact hedge
      · exact hpresent
  next => simp

theorem Graph.connect_edges_nodup
    {g : Graph} (hedges : g.edges.Nodup) (dependency dependent : Nat) :
    (g.connect dependency dependent).edges.Nodup := by
  unfold Graph.connect
  split
  next => exact hedges
  next habsent =>
    simp only [List.nodup_append, hedges, List.nodup_singleton, true_and]
    rintro edge hedge other hother rfl
    exact habsent (List.mem_singleton.mp hother ▸ hedge)

namespace Graph

/-- One or more edges lead from the first node to the second. -/
def Path (g : Graph) : Nat → Nat → Prop :=
  Relation.TransGen fun j i => (j, i) ∈ g.edges

def Acyclic (g : Graph) : Prop := ∀ i, ¬ g.Path i i

/-- Edges lead between nodes. -/
def Closed (g : Graph) : Prop :=
  ∀ j i, (j, i) ∈ g.edges → j ∈ g.nodes ∧ i ∈ g.nodes

/-- Every dependency of a member of the order stands before it. -/
def Respects (g : Graph) (order : List Nat) : Prop :=
  ∀ before i after, order = before ++ i :: after →
    ∀ j, (j, i) ∈ g.edges → j ∈ before

variable {g : Graph} {order : List Nat}

theorem Respects.idxOf_lt
    (hrespects : g.Respects order) {i j : Nat}
    (hmem : i ∈ order) (hedge : (j, i) ∈ g.edges) :
    order.idxOf j < order.idxOf i := by
  obtain ⟨before, after, hsplit, hfirst⟩ := List.eq_append_cons_of_mem hmem
  have hbefore : j ∈ before := hrespects before i after hsplit j hedge
  have hj : order.idxOf j = before.idxOf j := by
    rw [hsplit, List.idxOf_append_of_mem hbefore]
  have hi : order.idxOf i = before.length := by
    rw [hsplit, List.idxOf_append_of_notMem hfirst, List.idxOf_cons_self, Nat.add_zero]
  rw [hj, hi]
  exact List.idxOf_lt_length_of_mem hbefore

theorem Respects.acyclic
    (hrespects : g.Respects order) (hclosed : g.Closed)
    (hnodes : ∀ i ∈ g.nodes, i ∈ order) :
    g.Acyclic := by
  have hdescends : ∀ j i, g.Path j i → order.idxOf j < order.idxOf i := by
    intro j i hpath
    induction hpath with
    | single hedge =>
        exact hrespects.idxOf_lt (hnodes _ (hclosed _ _ hedge).2) hedge
    | tail _ hedge ih =>
        exact ih.trans (hrespects.idxOf_lt (hnodes _ (hclosed _ _ hedge).2) hedge)
  intro i hcycle
  exact lt_irrefl _ (hdescends i i hcycle)

end Graph

end WorkPlan

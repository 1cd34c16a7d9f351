import Mathlib.Tactic
import WorkPlan.Proofs.Acceptance

/-!
# The step that a cycle is told by

A graph is refused in one of two passes.  The sweep stops at a node that depends on itself.
After it, a search goes backwards from every node of the order in turn, past no node that
has a mark; the second node that one search marks is the answer.  All nodes before the
start have marks by then, so the answer is a dependency of the start that stands behind it,
and the sweep puts a dependency behind its dependent only if the dependent leads to it.
-/

namespace WorkPlan

namespace Graph

/-! ## Searching backwards -/

/-- Takes nodes off a stack up to one without a mark and marks it; its own dependencies
without marks are put on the stack, the one with the oldest edge on top. -/
def markNext? (g : Graph) (marked : List Nat) : List Nat → Option (Nat × List Nat × List Nat)
  | [] => none
  | i :: rest =>
      if i ∈ marked then g.markNext? marked rest
      else some (i, i :: marked, (g.dependencies i).filter (· ∉ i :: marked) ++ rest)

/-- Searches backwards from a node; no search may mark a second one. -/
def searchFrom (g : Graph) (marked : List Nat) (i : Nat) : Except Nat (List Nat) :=
  match g.markNext? marked [i] with
  | none => .ok marked
  | some (_, marked, stack) =>
      match g.markNext? marked stack with
      | none => .ok marked
      | some (j, _, _) => .error j

/-- The order of a sweep, searched backwards from each of its nodes. -/
def searchedOrder (g : Graph) : Except Nat (List Nat) := do
  let found ← g.sweep
  let _ ← found.foldlM g.searchFrom []
  return found

variable {g : Graph} {order marked : List Nat} {i j : Nat}

theorem searchFrom_of_unmarked (hfresh : i ∉ marked) :
    g.searchFrom marked i =
      match (g.dependencies i).find? fun j => decide (j ≠ i) && decide (j ∉ marked) with
      | some j => .error j
      | none => .ok (i :: marked) := by
  let unmarked := (g.dependencies i).filter (· ∉ i :: marked)
  have hfirst : g.markNext? marked [i] = some (i, i :: marked, unmarked) := by
    simp [markNext?, hfresh, unmarked]
  have hhead : (g.dependencies i).find? (fun j => decide (j ≠ i) && decide (j ∉ marked)) =
      unmarked.head? := by
    simp [unmarked, List.head?_filter]
  rw [hhead, searchFrom, hfirst]
  cases hstack : unmarked with
  | nil => rfl
  | cons j rest =>
      have hj : j ∉ i :: marked := by
        have hmem : j ∈ unmarked := by simp [hstack]
        simpa [unmarked] using (List.mem_filter.mp hmem).2
      simp [markNext?, hj]

theorem foldlM_searchFrom
    (hnodup : order.Nodup) (hfresh : ∀ i ∈ order, i ∉ marked) :
    order.foldlM g.searchFrom marked =
      match g.misplaced? marked order with
      | some j => .error j
      | none => .ok (order.reverse ++ marked) := by
  induction order generalizing marked with
  | nil => rfl
  | cons first order ih =>
      rw [List.nodup_cons] at hnodup
      rw [List.foldlM_cons, searchFrom_of_unmarked (hfresh first (by simp)), misplaced?]
      cases hfind : (g.dependencies first).find?
          fun j => decide (j ≠ first) && decide (j ∉ marked) with
      | some j => rfl
      | none =>
          have hrest : ∀ i ∈ order, i ∉ first :: marked := by
            intro i hi
            have hne : i ≠ first := fun heq => hnodup.1 (heq ▸ hi)
            simp [hne, hfresh i (by simp [hi])]
          have hlater := ih hnodup.2 hrest
          simp only [bind, Except.bind]
          rw [hlater]
          simp

theorem order_eq_searchedOrder (hclosed : g.Closed) : g.order = g.searchedOrder := by
  unfold Graph.order searchedOrder
  cases hsweep : g.sweep with
  | error i => rfl
  | ok found =>
      have hnodup := (sweep_swept hclosed hsweep).nodup
      have hsearch : found.foldlM g.searchFrom [] = _ := foldlM_searchFrom hnodup (by simp)
      simp only [bind, Except.bind]
      rw [hsearch]
      cases g.misplaced? [] found <;> rfl

/-! ## The answer of a search is on a cycle -/

theorem exists_of_misplaced?_eq_some (hplaced : g.misplaced? marked order = some j) :
    ∃ before i after, order = before ++ i :: after ∧
      (j, i) ∈ g.edges ∧ j ≠ i ∧ j ∉ marked ∧ j ∉ before := by
  induction order generalizing marked with
  | nil => cases hplaced
  | cons first order ih =>
      unfold misplaced? at hplaced
      split at hplaced
      next k hfind =>
        cases hplaced
        have hedge := mem_dependencies.mp (List.mem_of_find?_eq_some hfind)
        have hout := List.find?_some hfind
        simp only [Bool.and_eq_true, decide_eq_true_eq] at hout
        exact ⟨[], first, order, rfl, hedge, hout.1, hout.2, List.not_mem_nil⟩
      next =>
        obtain ⟨before, i, after, hsplit, hedge, hne, hunmarked, hbefore⟩ := ih hplaced
        rw [List.mem_cons, not_or] at hunmarked
        refine ⟨first :: before, i, after, by rw [hsplit, List.cons_append], hedge, hne,
          hunmarked.2, ?_⟩
        simp [hunmarked.1, hbefore]

theorem Swept.path_of_misplaced
    (hswept : g.Swept order) (hclosed : g.Closed) (hplaced : g.misplaced? [] order = some j) :
    g.Path j j := by
  obtain ⟨before, i, after, rfl, hedge, hne, -, hbefore⟩ :=
    exists_of_misplaced?_eq_some hplaced
  have hj : j ∈ before ++ i :: after := (hswept.mem_iff j).mpr (hclosed j i hedge).1
  have hafter : j ∈ after := by
    simpa [hbefore, hne] using hj
  have hsorted := (List.pairwise_append.mp hswept.sorted).2.1
  have hback : g.Path i j := (List.pairwise_cons.mp hsorted).1 j hafter hedge
  exact Relation.TransGen.head hedge hback

theorem path_of_order_eq_error (hclosed : g.Closed) (horder : g.order = .error i) :
    g.Path i i := by
  unfold Graph.order at horder
  cases hsweep : g.sweep with
  | error j =>
      rw [hsweep] at horder
      cases horder
      exact Relation.TransGen.single (sweep_error hsweep)
  | ok found =>
      simp only [hsweep, bind, Except.bind] at horder
      split at horder
      next j hplaced =>
        cases horder
        exact (sweep_swept hclosed hsweep).path_of_misplaced hclosed hplaced
      next => cases horder

end Graph

/-! ## Refusals for a cycle -/

namespace OrderedGraph

variable {c : Catalog} {roots : List Nat}

/-- The graph that is put in order: all steps of the plan with the edges of both kinds,
when their names are distinct and all names that they wait for are known. -/
def Handed (c : Catalog) (roots : List Nat) (graph : Graph) : Prop :=
  leastName? ((Graph.discover c roots).sharedNames c) = none ∧
    ∃ named, (Graph.discover c roots).namedEdges c = .ok named ∧
      graph = (Graph.discover c roots).connectAll named

theorem Handed.distinct {graph : Graph} (hhanded : Handed c roots graph) :
    c.DistinctNames roots :=
  leastName?_eq_none_iff_distinct.mp hhanded.1

theorem Handed.mem_edges {graph : Graph} (hhanded : Handed c roots graph) {i j : Nat} :
    (j, i) ∈ graph.edges ↔ c.Dependency roots j i := by
  obtain ⟨-, named, hnamed, rfl⟩ := id hhanded
  exact mem_named_edges hhanded.distinct hnamed

theorem Handed.closed {graph : Graph} (hhanded : Handed c roots graph) : graph.Closed := by
  obtain ⟨-, named, hnamed, rfl⟩ := id hhanded
  exact named_closed hhanded.distinct hnamed

theorem Handed.build_eq {graph : Graph} (hhanded : Handed c roots graph) :
    build c roots =
      match graph.order with
      | .ok order => .ok ⟨graph, order⟩
      | .error i => .error (.cycle (c.name i)) := by
  obtain ⟨hleast, named, hnamed, rfl⟩ := hhanded
  exact build_of_named hleast hnamed

theorem Handed.cycle
    {graph : Graph} (hhanded : Handed c roots graph) {i : Nat} (horder : graph.order = .error i) :
    Relation.TransGen (c.Dependency roots) i i := by
  have hpath := Graph.path_of_order_eq_error hhanded.closed horder
  exact Relation.TransGen.mono (fun _ _ hedge => hhanded.mem_edges.mp hedge) i i hpath

theorem exists_handed_of_cycle
    {n : String} (hbuild : build c roots = .error (.cycle n)) :
    ∃ graph i, Handed c roots graph ∧ graph.order = .error i ∧ c.name i = n := by
  cases hleast : leastName? ((Graph.discover c roots).sharedNames c) with
  | some name => simp [build_of_shared hleast] at hbuild
  | none =>
      cases hnamed : (Graph.discover c roots).namedEdges c with
      | error e =>
          obtain ⟨i, name, -, rfl⟩ := unknownWait_of_namedEdges_error hnamed
          simp [build_of_unknown hleast hnamed] at hbuild
      | ok named =>
          have hhanded : Handed c roots ((Graph.discover c roots).connectAll named) :=
            ⟨hleast, named, hnamed, rfl⟩
          rw [hhanded.build_eq] at hbuild
          split at hbuild
          next => cases hbuild
          next i horder =>
            cases hbuild
            exact ⟨_, i, hhanded, horder, rfl⟩

/-- A graph is put in order by a sweep and a search backwards.  A refusal names the one
step of the plan that bears the name, and chains of dependencies lead from this step back
to it; an order has every step once, behind all its dependencies. -/
theorem build_ordered_or_cycle (c : Catalog) (roots : List Nat) :
    (∀ graph, Handed c roots graph →
      graph.order = graph.searchedOrder ∧
      build c roots =
        match graph.order with
        | .ok order => .ok ⟨graph, order⟩
        | .error i => .error (.cycle (c.name i))) ∧
    (∀ n, build c roots = .error (.cycle n) →
      ∃ i, c.Reachable roots i ∧ c.name i = n ∧
        (∀ k, c.Reachable roots k → c.name k = n → k = i) ∧
        Relation.TransGen (c.Dependency roots) i i) ∧
    (∀ g, build c roots = .ok g →
      g.order.Nodup ∧ (∀ i, i ∈ g.order ↔ c.Reachable roots i) ∧
      ∀ before i after, g.order = before ++ i :: after →
        ∀ j, c.Dependency roots j i → j ∈ before) := by
  refine ⟨?_, ?_, ?_⟩
  · intro graph hhanded
    exact ⟨Graph.order_eq_searchedOrder hhanded.closed, hhanded.build_eq⟩
  · intro n hbuild
    obtain ⟨graph, i, hhanded, horder, rfl⟩ := exists_handed_of_cycle hbuild
    have hcycle := hhanded.cycle horder
    obtain ⟨j, -, hlast⟩ := Relation.TransGen.tail'_iff.mp hcycle
    refine ⟨i, hlast.1, rfl, ?_, hcycle⟩
    intro k hk hname
    exact hhanded.distinct k i hk hlast.1 hname
  · intro g hbuild
    have hvalid := build_valid hbuild
    refine ⟨hvalid.ordered.nodup, ?_, ?_⟩
    · intro i
      exact (hvalid.ordered.mem_iff i).trans (hvalid.mem_nodes i)
    · intro before i after hsplit j hdependency
      exact hvalid.ordered.respects before i after hsplit j
        ((hvalid.mem_edges j i).mpr hdependency)

/-- Two steps that wait for each other, one before and one behind them. -/
def knot : Catalog where
  steps := #[
    { name := "before" },
    { name := "first", slots := [.result 0], waits := [.named "second"] },
    { name := "second", slots := [.result 1] },
    { name := "behind", slots := [.result 2] }]
  earlier := by
    intro i s hs
    obtain ⟨hi, rfl⟩ := Array.getElem?_eq_some_iff.mp hs
    clear hs
    revert i
    decide

example : build knot [3] = .error (.cycle "first") := by cbv

end OrderedGraph

end WorkPlan

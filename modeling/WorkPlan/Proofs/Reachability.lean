import Mathlib.Tactic
import WorkPlan.Graph.Discovery
import WorkPlan.Proofs.Edges

/-!
# The steps of a plan

A step belongs to a plan when it is a root or is held by a step of the plan.  The
discovery finds exactly these steps, each once, and draws exactly the edges that lead to
them from the steps they hold.

The invariant is about the boundary between the nodes and the stack: a node that is
still on the stack has no edges yet, and any other node has all of them.
-/

namespace WorkPlan

/-- The steps of the plan with the given roots. -/
inductive Catalog.Reachable (c : Catalog) (roots : List Nat) : Nat → Prop
  | root {i : Nat} (hroot : i ∈ roots) : Reachable c roots i
  | held {i j : Nat} (hholder : Reachable c roots i) (hheld : j ∈ c.handles i) :
      Reachable c roots j

theorem Slot.step?_eq_some_iff {slot : Slot} {j : Nat} :
    slot.step? = some j ↔ slot = .result j := by
  cases slot <;> simp [Slot.step?]

theorem Wait.step?_eq_some_iff {wait : Wait} {j : Nat} :
    wait.step? = some j ↔ wait = .step j := by
  cases wait <;> simp [Wait.step?]

theorem Catalog.mem_handles {c : Catalog} {i j : Nat} :
    j ∈ c.handles i ↔ .result j ∈ (c.step i).slots ∨ .step j ∈ (c.step i).waits := by
  simp [Catalog.handles, Step.handles, Step.references, List.mem_eraseDups,
    Slot.step?_eq_some_iff, Wait.step?_eq_some_iff]

/-- Only steps of the catalog hold others, so a held step is in the catalog too. -/
theorem Catalog.handle_lt_size
    (c : Catalog) {i j : Nat} (hheld : j ∈ c.handles i) :
    j < c.size := by
  have hearlier : j < i := c.handle_lt hheld
  by_cases hrange : i < c.steps.size
  · exact hearlier.trans hrange
  · have hmissing : c.steps[i]? = none := by
      simpa using hrange
    simp [Catalog.handles, Catalog.step, hmissing, Step.handles, Step.references,
      default] at hheld

theorem Catalog.Reachable.mem_roots_or_lt_size
    {c : Catalog} {roots : List Nat} {i : Nat}
    (hreachable : c.Reachable roots i) :
    i ∈ roots ∨ i < c.size := by
  cases hreachable with
  | root hroot => exact Or.inl hroot
  | held _ hheld => exact Or.inr (c.handle_lt_size hheld)

namespace Discovery

/-! ## Taking in a step -/

theorem mem_find_nodes {s : Discovery} {i j : Nat} :
    j ∈ (s.find i).graph.nodes ↔ j ∈ s.graph.nodes ∨ j = i := by
  unfold find
  split
  next hfound =>
    constructor
    · exact Or.inl
    · rintro (hnode | rfl)
      · exact hnode
      · exact hfound
  next => simp

theorem mem_find_pending {s : Discovery} {i j : Nat} :
    j ∈ (s.find i).pending ↔
      j ∈ s.pending ∨ (j = i ∧ i ∉ s.graph.nodes) := by
  unfold find
  split
  next hfound => simp [hfound]
  next hnew => simp [hnew, or_comm]

@[simp] theorem find_edges (s : Discovery) (i : Nat) :
    (s.find i).graph.edges = s.graph.edges := by
  unfold find
  split <;> rfl

/-- A step that is taken in is put on the stack, so the number of nodes that are off the
stack stays the same. -/
theorem find_balance (s : Discovery) (i : Nat) :
    (s.find i).graph.nodes.length + s.pending.length =
      s.graph.nodes.length + (s.find i).pending.length := by
  unfold find
  split
  next => rfl
  next =>
    simp only [List.length_append, List.length_cons, List.length_nil]
    omega

/-- No node, edge or stack entry is listed twice, and the stack holds nodes only. -/
structure Tidy (s : Discovery) : Prop where
  nodes : s.graph.nodes.Nodup
  edges : s.graph.edges.Nodup
  pending : s.pending.Nodup
  pending_found : ∀ i ∈ s.pending, i ∈ s.graph.nodes

theorem Tidy.find {s : Discovery} (htidy : s.Tidy) (i : Nat) : (s.find i).Tidy := by
  unfold Discovery.find
  split
  next => exact htidy
  next hnew =>
    have hoff : i ∉ s.pending := fun hpending => hnew (htidy.pending_found i hpending)
    constructor
    · simp only [List.nodup_append, htidy.nodes, List.nodup_singleton, true_and]
      rintro j hj k hk rfl
      exact hnew (List.mem_singleton.mp hk ▸ hj)
    · exact htidy.edges
    · exact List.nodup_cons.mpr ⟨hoff, htidy.pending⟩
    · intro j hj
      rcases List.mem_cons.mp hj with rfl | hj
      · simp
      · exact List.mem_append_left _ (htidy.pending_found j hj)

theorem Tidy.draw
    {s : Discovery} (htidy : s.Tidy) (dependent dependency : Nat) :
    (s.draw dependent dependency).Tidy := by
  have hfind := htidy.find dependency
  constructor
  · simpa [Discovery.draw] using hfind.nodes
  · exact Graph.connect_edges_nodup hfind.edges dependency dependent
  · exact hfind.pending
  · simpa [Discovery.draw] using hfind.pending_found

/-! ## Looking at a step -/

variable {s : Discovery} {dependent : Nat} {held : List Nat}

theorem Tidy.drawAll (htidy : s.Tidy) (dependent : Nat) (held : List Nat) :
    (held.foldl (Discovery.draw dependent) s).Tidy := by
  induction held generalizing s with
  | nil => exact htidy
  | cons dependency held ih => exact ih (htidy.draw dependent dependency)

theorem mem_drawAll_nodes {i : Nat} :
    i ∈ (held.foldl (draw dependent) s).graph.nodes ↔
      i ∈ s.graph.nodes ∨ i ∈ held := by
  induction held generalizing s with
  | nil => simp
  | cons dependency held ih =>
      rw [List.foldl_cons, ih, List.mem_cons, ← or_assoc]
      simp [draw, mem_find_nodes]

theorem mem_drawAll_edges {edge : Nat × Nat} :
    edge ∈ (held.foldl (draw dependent) s).graph.edges ↔
      edge ∈ s.graph.edges ∨ (edge.1 ∈ held ∧ edge.2 = dependent) := by
  induction held generalizing s with
  | nil => simp
  | cons dependency held ih =>
      rw [List.foldl_cons, ih, List.mem_cons, or_and_right, ← or_assoc]
      simp [draw, Prod.ext_iff]

theorem mem_drawAll_pending {i : Nat} :
    i ∈ (held.foldl (draw dependent) s).pending ↔
      i ∈ s.pending ∨ (i ∈ held ∧ i ∉ s.graph.nodes) := by
  induction held generalizing s with
  | nil => simp
  | cons dependency held ih =>
      rw [List.foldl_cons, ih]
      have hpending : (s.draw dependent dependency).pending =
          (s.find dependency).pending := rfl
      have hnodes : (s.draw dependent dependency).graph.nodes =
          (s.find dependency).graph.nodes := by simp [draw]
      rw [hpending, hnodes, mem_find_pending, mem_find_nodes, List.mem_cons]
      by_cases hsame : i = dependency
      · subst i
        tauto
      · simp [hsame]

theorem drawAll_balance (s : Discovery) (dependent : Nat) (held : List Nat) :
    (held.foldl (draw dependent) s).graph.nodes.length + s.pending.length =
      s.graph.nodes.length + (held.foldl (draw dependent) s).pending.length := by
  induction held generalizing s with
  | nil => rfl
  | cons dependency held ih =>
      have hrest := ih (s.draw dependent dependency)
      have hfirst := find_balance s dependency
      have hpending : (s.draw dependent dependency).pending =
          (s.find dependency).pending := rfl
      have hnodes : (s.draw dependent dependency).graph.nodes =
          (s.find dependency).graph.nodes := by simp [draw]
      rw [hpending, hnodes] at hrest
      rw [List.foldl_cons]
      omega

/-! ## The invariant of the discovery -/

/-- What holds between two looks: the nodes belong to the plan, and the edges are those
into the nodes that are off the stack. -/
structure Sound (c : Catalog) (roots : List Nat) (s : Discovery) : Prop extends Tidy s where
  reachable : ∀ i ∈ s.graph.nodes, c.Reachable roots i
  roots_found : ∀ i ∈ roots, i ∈ s.graph.nodes
  drawn : ∀ j i, (j, i) ∈ s.graph.edges ↔
    i ∈ s.graph.nodes ∧ i ∉ s.pending ∧ j ∈ c.handles i
  closed : ∀ j i, (j, i) ∈ s.graph.edges → j ∈ s.graph.nodes

variable {c : Catalog} {roots : List Nat}

theorem Sound.look (hsound : s.Sound c roots) : (s.look c).Sound c roots := by
  unfold Discovery.look
  split
  next => exact hsound
  next i rest hpending =>
    have htop : i ∈ s.graph.nodes := hsound.pending_found i (by simp [hpending])
    have hnodup : i ∉ rest ∧ rest.Nodup := by
      simpa [hpending] using hsound.pending
    have hpopped : Tidy { s with pending := rest } := by
      refine ⟨hsound.nodes, hsound.edges, hnodup.2, ?_⟩
      intro j hj
      exact hsound.pending_found j (by simp [hpending, hj])
    have hundrawn : ∀ j, (j, i) ∉ s.graph.edges := by
      intro j hedge
      exact ((hsound.drawn j i).mp hedge).2.1 (by simp [hpending])
    refine ⟨hpopped.drawAll i (c.handles i), ?_, ?_, ?_, ?_⟩
    · intro j hj
      rcases mem_drawAll_nodes.mp hj with hj | hj
      · exact hsound.reachable j hj
      · exact .held (hsound.reachable i htop) hj
    · intro j hj
      exact mem_drawAll_nodes.mpr (Or.inl (hsound.roots_found j hj))
    · intro j k
      rw [mem_drawAll_edges, mem_drawAll_nodes, mem_drawAll_pending]
      have hold := hsound.drawn j k
      rw [hpending] at hold
      simp only [List.mem_cons, not_or] at hold
      by_cases hk : k = i
      · subst k
        simp [hundrawn j, htop, hnodup.1]
      · simp only [hold, hk, and_false, or_false, not_false_eq_true, true_and]
        by_cases hnode : k ∈ s.graph.nodes
        · simp [hnode]
        · simp only [hnode, false_and, false_or, not_false_eq_true, and_true, not_or,
            false_iff, not_and]
          intro hfound hoff
          exact absurd hfound hoff.2
    · intro j k hedge
      rcases mem_drawAll_edges.mp hedge with hedge | ⟨hheld, -⟩
      · exact mem_drawAll_nodes.mpr (Or.inl (hsound.closed j k hedge))
      · exact mem_drawAll_nodes.mpr (Or.inr hheld)

theorem Sound.run (hsound : s.Sound c roots) (fuel : Nat) :
    (Discovery.run c fuel s).Sound c roots := by
  induction fuel generalizing s with
  | zero => exact hsound
  | succ fuel ih =>
      simp only [Discovery.run]
      split
      · exact hsound
      · exact ih hsound.look

/-! ## Every found step is looked at -/

theorem Sound.nodes_length_le (hsound : s.Sound c roots) :
    s.graph.nodes.length ≤ roots.length + c.size := by
  have hsubset : s.graph.nodes ⊆ roots ++ List.range c.size := by
    intro i hi
    rw [List.mem_append, List.mem_range]
    exact (hsound.reachable i hi).mem_roots_or_lt_size
  simpa using hsound.nodes.length_le_of_subset hsubset

theorem look_balance {i : Nat} {rest : List Nat} (hpending : s.pending = i :: rest) :
    (s.look c).graph.nodes.length + s.pending.length =
      s.graph.nodes.length + (s.look c).pending.length + 1 := by
  have hbalance := drawAll_balance { s with pending := rest } i (c.handles i)
  simp only [look, hpending, List.length_cons] at hbalance ⊢
  omega

/-- Each look takes one node off the stack for good, so the stack is empty when the fuel
covers the nodes that can still come. -/
theorem Sound.run_pending
    {fuel : Nat} (hsound : s.Sound c roots)
    (hfuel : roots.length + c.size + s.pending.length ≤
      fuel + s.graph.nodes.length) :
    (Discovery.run c fuel s).pending = [] := by
  induction fuel generalizing s with
  | zero =>
      have hbound := hsound.nodes_length_le
      have hempty : s.pending.length = 0 := by omega
      simpa [Discovery.run] using hempty
  | succ fuel ih =>
      cases hpending : s.pending with
      | nil => simp [Discovery.run, hpending]
      | cons i rest =>
          have hbalance := look_balance (c := c) hpending
          simp only [Discovery.run, hpending, List.isEmpty_cons, Bool.false_eq_true, if_false]
          exact ih hsound.look (by omega)

/-! ## The start -/

/-- Nothing is looked at before the roots are taken in: every node is on the stack. -/
structure Unlooked (s : Discovery) : Prop extends Tidy s where
  no_edges : s.graph.edges = []
  nodes_pending : ∀ i ∈ s.graph.nodes, i ∈ s.pending

theorem Unlooked.find (hunlooked : s.Unlooked) (i : Nat) : (s.find i).Unlooked := by
  refine ⟨hunlooked.toTidy.find i, ?_, ?_⟩
  · rw [find_edges]
    exact hunlooked.no_edges
  · intro j hj
    rw [mem_find_pending]
    rcases mem_find_nodes.mp hj with hj | rfl
    · exact Or.inl (hunlooked.nodes_pending j hj)
    · by_cases hfound : j ∈ s.graph.nodes
      · exact Or.inl (hunlooked.nodes_pending j hfound)
      · exact Or.inr ⟨rfl, hfound⟩

theorem Unlooked.findAll (hunlooked : s.Unlooked) (roots : List Nat) :
    (roots.foldl Discovery.find s).Unlooked := by
  induction roots generalizing s with
  | nil => exact hunlooked
  | cons i roots ih => exact ih (hunlooked.find i)

theorem mem_findAll_nodes {i : Nat} :
    i ∈ (roots.foldl find s).graph.nodes ↔ i ∈ s.graph.nodes ∨ i ∈ roots := by
  induction roots generalizing s with
  | nil => simp
  | cons root roots ih =>
      rw [List.foldl_cons, ih, mem_find_nodes, List.mem_cons, or_assoc]

theorem start_unlooked (roots : List Nat) : (start roots).Unlooked := by
  have hempty : Unlooked {} := by
    constructor
    · constructor <;> simp
    · rfl
    · simp
  exact hempty.findAll roots

theorem mem_start_nodes {i : Nat} : i ∈ (start roots).graph.nodes ↔ i ∈ roots := by
  simp [start, mem_findAll_nodes]

theorem start_sound (c : Catalog) (roots : List Nat) : (start roots).Sound c roots := by
  have hunlooked := start_unlooked roots
  refine ⟨hunlooked.toTidy, ?_, ?_, ?_, ?_⟩
  · intro i hi
    exact .root (mem_start_nodes.mp hi)
  · intro i hi
    exact mem_start_nodes.mpr hi
  · intro j i
    simp only [hunlooked.no_edges, List.not_mem_nil, false_iff]
    rintro ⟨hnode, hoff, -⟩
    exact hoff (hunlooked.nodes_pending i hnode)
  · simp [hunlooked.no_edges]

theorem start_pending_length (roots : List Nat) :
    (start roots).pending.length = (start roots).graph.nodes.length := by
  have hunlooked := start_unlooked roots
  apply le_antisymm
  · exact hunlooked.pending.length_le_of_subset fun i => hunlooked.pending_found i
  · exact hunlooked.nodes.length_le_of_subset fun i => hunlooked.nodes_pending i

theorem run_start_pending (c : Catalog) (roots : List Nat) :
    (run c (roots.length + c.size) (start roots)).pending = [] := by
  apply (start_sound c roots).run_pending
  rw [start_pending_length]

end Discovery

/-! ## The discovered graph -/

namespace Graph

variable {c : Catalog} {roots : List Nat}

theorem discover_nodes_nodup (c : Catalog) (roots : List Nat) :
    (discover c roots).nodes.Nodup :=
  ((Discovery.start_sound c roots).run _).nodes

theorem discover_edges_nodup (c : Catalog) (roots : List Nat) :
    (discover c roots).edges.Nodup :=
  ((Discovery.start_sound c roots).run _).edges

theorem mem_discover_edges_iff_node {i j : Nat} :
    (j, i) ∈ (discover c roots).edges ↔
      i ∈ (discover c roots).nodes ∧ j ∈ c.handles i := by
  have hsound := (Discovery.start_sound c roots).run (roots.length + c.size)
  have hdrawn := hsound.drawn j i
  rw [Discovery.run_start_pending] at hdrawn
  simpa [discover] using hdrawn

theorem mem_discover_nodes {i : Nat} :
    i ∈ (discover c roots).nodes ↔ c.Reachable roots i := by
  have hsound := (Discovery.start_sound c roots).run (roots.length + c.size)
  constructor
  · exact hsound.reachable i
  · intro hreachable
    induction hreachable with
    | root hroot => exact hsound.roots_found _ hroot
    | held _ hheld ih =>
        exact hsound.closed _ _ (mem_discover_edges_iff_node.mpr ⟨ih, hheld⟩)

theorem mem_discover_edges {i j : Nat} :
    (j, i) ∈ (discover c roots).edges ↔
      c.Reachable roots i ∧ j ∈ c.handles i := by
  rw [mem_discover_edges_iff_node, mem_discover_nodes]

end Graph

end WorkPlan

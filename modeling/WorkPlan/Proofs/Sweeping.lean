import Mathlib.Tactic
import WorkPlan.Graph.Order
import WorkPlan.Proofs.Edges

/-!
# Sweeping a graph

A node is open while it is seen but not in the order.  The sweep keeps the open nodes on
its stack, and everything above an open node is reached from it.  So a dependent of an
open node is in the order, waits above it, or is open itself and leads to it; the last
case is a cycle.  When a node is done, nothing is above it any more, which is why the
order of a graph without cycles respects the graph.

Every look spends one unit of the fuel: a node is seen once, for which it and its
dependents are charged, and every entry of the stack is taken off once.
-/

namespace WorkPlan

namespace Sweep

variable {g : Graph} {s t : Sweep}

/-- A node that is not in the first part of a stack stands at the head of the rest or
below it. -/
private theorem split_below
    {fresh rest above below : List Nat} {top i : Nat} (hfresh : i ∉ fresh)
    (hsplit : fresh ++ top :: rest = above ++ i :: below) :
    (above = fresh ∧ i = top) ∨
      ∃ between, above = fresh ++ top :: between ∧ rest = between ++ i :: below := by
  rcases List.append_eq_append_iff.mp hsplit with
    ⟨extra, habove, hrest⟩ | ⟨extra, hextra, hbelow⟩
  · cases extra with
    | nil =>
        simp only [List.nil_append, List.cons.injEq] at hrest
        exact Or.inl ⟨by simpa using habove, hrest.1.symm⟩
    | cons first between =>
        simp only [List.cons_append, List.cons.injEq] at hrest
        exact Or.inr ⟨between, hrest.1 ▸ habove, hrest.2⟩
  · cases extra with
    | nil =>
        simp only [List.nil_append, List.cons.injEq] at hbelow
        exact Or.inl ⟨by simpa using hextra.symm, hbelow.1⟩
    | cons first extra =>
        simp only [List.cons_append, List.cons.injEq] at hbelow
        exact absurd (by simp [hextra, hbelow.1]) hfresh

/-- What is known of an open node under the entries of the stack that are above it. -/
structure Descends (g : Graph) (s : Sweep) (above : List Nat) (i : Nat) : Prop where
  reached : ∀ k ∈ above, g.Path i k
  dependents : ∀ k, (i, k) ∈ g.edges → k ∈ s.order ∨ k ∈ above ∨ g.Path k i

structure Sound (g : Graph) (s : Sweep) : Prop where
  seen_nodes : ∀ i ∈ s.seen, i ∈ g.nodes
  stack_nodes : ∀ i ∈ s.stack, i ∈ g.nodes
  no_loop : ∀ i ∈ s.seen, (i, i) ∉ g.edges
  order_seen : ∀ i ∈ s.order, i ∈ s.seen
  order_nodup : s.order.Nodup
  open_on_stack : ∀ i ∈ s.seen, i ∉ s.order → i ∈ s.stack
  descends : ∀ above i below, s.stack = above ++ i :: below → i ∉ above →
    i ∈ s.seen → i ∉ s.order → Descends g s above i
  done : ∀ i ∈ s.order, ∀ k, (i, k) ∈ g.edges → k ∈ s.order ∨ g.Path k i
  sorted : s.order.Pairwise fun i j => (j, i) ∈ g.edges → g.Path i j

/-- An open node below the top of the stack leads to the top. -/
theorem Sound.path_of_open
    (hsound : s.Sound g) {top : Nat} {rest : List Nat} (hstack : s.stack = top :: rest)
    {i : Nat} (hne : i ≠ top) (hseen : i ∈ s.seen) (hopen : i ∉ s.order) :
    g.Path i top := by
  have hmem : i ∈ rest := by
    have hon := hsound.open_on_stack i hseen hopen
    rw [hstack] at hon
    exact (List.mem_cons.mp hon).resolve_left hne
  obtain ⟨above, below, hrest, hfirst⟩ := List.eq_append_cons_of_mem hmem
  have hsplit : s.stack = (top :: above) ++ i :: below := by
    rw [hstack, hrest, List.cons_append]
  have habove : i ∉ top :: above := by
    simp [hne, hfirst]
  exact (hsound.descends _ i below hsplit habove hseen hopen).reached top (by simp)

/-- The dependents of the top wait above it once the unseen ones are put there. -/
theorem Sound.descends_top
    (hsound : s.Sound g) {top : Nat} {rest : List Nat} (hstack : s.stack = top :: rest)
    (hloop : (top, top) ∉ g.edges) (horder : t.order = s.order) :
    Descends g t ((g.dependents top).filter (· ∉ top :: s.seen)) top := by
  constructor
  · intro k hk
    have hedge := List.mem_of_mem_filter hk
    exact Relation.TransGen.single (Graph.mem_dependents.mp hedge)
  · intro k hedge
    rw [horder]
    by_cases hk : k ∈ top :: s.seen
    · have hne : k ≠ top := by
        rintro rfl
        exact hloop hedge
      have hseen : k ∈ s.seen := (List.mem_cons.mp hk).resolve_left hne
      by_cases hdone : k ∈ s.order
      · exact Or.inl hdone
      · exact Or.inr (Or.inr (hsound.path_of_open hstack hne hseen hdone))
    · refine Or.inr (Or.inl (List.mem_filter.mpr ⟨Graph.mem_dependents.mpr hedge, ?_⟩))
      simpa using hk

/-- What is put above the top is reached by all that reach the top. -/
theorem Descends.put_above
    {fresh above : List Nat} {top i : Nat} (hdescends : Descends g s (top :: above) i)
    (hfresh : ∀ k ∈ fresh, (top, k) ∈ g.edges) (horder : t.order = s.order) :
    Descends g t (fresh ++ top :: above) i := by
  constructor
  · intro k hk
    rcases List.mem_append.mp hk with hk | hk
    · exact (hdescends.reached top (by simp)).tail (hfresh k hk)
    · exact hdescends.reached k hk
  · intro k hedge
    rw [horder]
    rcases hdescends.dependents k hedge with hk | hk | hk
    · exact Or.inl hk
    · exact Or.inr (Or.inl (List.mem_append_right _ hk))
    · exact Or.inr (Or.inr hk)

theorem Descends.take_off
    {above : List Nat} {top i : Nat} (hdescends : Descends g s (top :: above) i)
    (hgrows : ∀ k ∈ s.order, k ∈ t.order) (htop : top ∈ t.order) :
    Descends g t above i := by
  constructor
  · intro k hk
    exact hdescends.reached k (List.mem_cons_of_mem _ hk)
  · intro k hedge
    rcases hdescends.dependents k hedge with hk | hk | hk
    · exact Or.inl (hgrows k hk)
    · rcases List.mem_cons.mp hk with rfl | hk
      · exact Or.inl htop
      · exact Or.inr (Or.inl hk)
    · exact Or.inr (Or.inr hk)

theorem Sound.enter
    (hsound : s.Sound g) (hclosed : g.Closed)
    {top : Nat} {rest : List Nat} (hstack : s.stack = top :: rest)
    (hunseen : top ∉ s.seen) (hloop : (top, top) ∉ g.edges) :
    Sound g { s with
      seen := top :: s.seen
      stack := (g.dependents top).filter (· ∉ top :: s.seen) ++ top :: rest } := by
  have htop : top ∈ g.nodes := hsound.stack_nodes top (by simp [hstack])
  have hunordered : top ∉ s.order := fun hmem => hunseen (hsound.order_seen top hmem)
  have hnew : ∀ k ∈ (g.dependents top).filter (· ∉ top :: s.seen),
      (top, k) ∈ g.edges ∧ k ≠ top ∧ k ∉ s.seen := by
    intro k hk
    simpa [Graph.mem_dependents] using hk
  constructor
  · intro i hi
    rcases List.mem_cons.mp hi with rfl | hi
    · exact htop
    · exact hsound.seen_nodes i hi
  · intro i hi
    rcases List.mem_append.mp hi with hi | hi
    · exact (hclosed _ _ (hnew i hi).1).2
    · exact hsound.stack_nodes i (hstack ▸ hi)
  · intro i hi
    rcases List.mem_cons.mp hi with rfl | hi
    · exact hloop
    · exact hsound.no_loop i hi
  · intro i hi
    exact List.mem_cons_of_mem _ (hsound.order_seen i hi)
  · exact hsound.order_nodup
  · intro i hi hopen
    apply List.mem_append_right
    rcases List.mem_cons.mp hi with rfl | hi
    · simp
    · exact hstack ▸ hsound.open_on_stack i hi hopen
  · intro above i below hsplit habove hi hopen
    have hold : i ∉ (g.dependents top).filter (· ∉ top :: s.seen) := by
      intro hmem
      rcases List.mem_cons.mp hi with rfl | hi
      · exact (hnew i hmem).2.1 rfl
      · exact (hnew i hmem).2.2 hi
    rcases split_below hold hsplit with ⟨rfl, rfl⟩ | ⟨between, rfl, hrest⟩
    · exact hsound.descends_top hstack hloop rfl
    · have hne : i ≠ top := by
        rintro rfl
        exact habove (by simp)
      have hseen : i ∈ s.seen := (List.mem_cons.mp hi).resolve_left hne
      have hbefore : s.stack = (top :: between) ++ i :: below := by
        rw [hstack, hrest, List.cons_append]
      have hdescends := hsound.descends (top :: between) i below hbefore
        (fun hmem => habove (List.mem_append_right _ hmem)) hseen hopen
      exact hdescends.put_above (fun k hk => (hnew k hk).1) rfl
  · exact hsound.done
  · exact hsound.sorted

/-- The top of the stack is taken off; it is done unless it was before. -/
theorem Sound.leave
    (hsound : s.Sound g) {top : Nat} {rest : List Nat} (hstack : s.stack = top :: rest)
    (hseen : top ∈ s.seen) :
    Sound g { s with
      order := if top ∈ s.order then s.order else top :: s.order
      stack := rest } := by
  have hgrows : ∀ k ∈ s.order, k ∈ if top ∈ s.order then s.order else top :: s.order := by
    intro k hk
    split
    · exact hk
    · exact List.mem_cons_of_mem _ hk
  have hdone : top ∈ if top ∈ s.order then s.order else top :: s.order := by
    split
    · assumption
    · simp
  -- With nothing above the top, its dependents are in the order or lead back to it.
  have htop : top ∉ s.order → ∀ k, (top, k) ∈ g.edges → k ∈ s.order ∨ g.Path k top := by
    intro hopen k hedge
    have hdescends := hsound.descends [] top rest hstack (by simp) hseen hopen
    simpa using hdescends.dependents k hedge
  constructor
  · exact hsound.seen_nodes
  · intro i hi
    exact hsound.stack_nodes i (by simp [hstack, hi])
  · exact hsound.no_loop
  · intro i hi
    simp only at hi
    split at hi
    · exact hsound.order_seen i hi
    · rcases List.mem_cons.mp hi with rfl | hi
      · exact hseen
      · exact hsound.order_seen i hi
  · simp only
    split
    · exact hsound.order_nodup
    · exact List.nodup_cons.mpr ⟨by assumption, hsound.order_nodup⟩
  · intro i hi hopen
    have hne : i ≠ top := by
      rintro rfl
      exact hopen hdone
    have hon := hsound.open_on_stack i hi fun hmem => hopen (hgrows i hmem)
    rw [hstack] at hon
    exact (List.mem_cons.mp hon).resolve_left hne
  · intro above i below hsplit habove hi hopen
    have hne : i ≠ top := by
      rintro rfl
      exact hopen hdone
    have hbefore : s.stack = (top :: above) ++ i :: below := by
      simpa [hstack] using hsplit
    have hdescends := hsound.descends (top :: above) i below hbefore
      (by simp [hne, habove]) hi fun hmem => hopen (hgrows i hmem)
    exact hdescends.take_off hgrows hdone
  · intro i hi k hedge
    simp only at hi
    split at hi
    next => exact (hsound.done i hi k hedge).imp_left (hgrows k)
    next hopen =>
      rcases List.mem_cons.mp hi with rfl | hi
      · exact (htop hopen k hedge).imp_left (hgrows k)
      · exact (hsound.done i hi k hedge).imp_left (hgrows k)
  · simp only
    split
    next => exact hsound.sorted
    next hopen =>
      refine List.pairwise_cons.mpr ⟨?_, hsound.sorted⟩
      intro i hi hedge
      exact (hsound.done i hi top hedge).resolve_left hopen

/-! ## Looks -/

theorem Sound.look
    (hsound : s.Sound g) (hclosed : g.Closed) (hlook : s.look g = .ok t) :
    t.Sound g := by
  unfold Sweep.look at hlook
  split at hlook
  next =>
    cases hlook
    exact hsound
  next top rest hstack =>
    split at hlook
    next hseen =>
      cases hlook
      exact hsound.leave hstack hseen
    next hunseen =>
      split at hlook
      next => cases hlook
      next hloop =>
        cases hlook
        exact hsound.enter hclosed hstack hunseen fun hedge =>
          hloop (Graph.mem_dependents.mpr hedge)

theorem look_keeps
    (hlook : s.look g = .ok t) {i : Nat} (hi : i ∈ s.stack ∨ i ∈ s.seen) :
    i ∈ t.stack ∨ i ∈ t.seen := by
  unfold look at hlook
  split at hlook
  next =>
    cases hlook
    exact hi
  next top rest hstack =>
    rw [hstack] at hi
    split at hlook
    next hseen =>
      cases hlook
      rcases hi with hi | hi
      · rcases List.mem_cons.mp hi with rfl | hi
        · exact Or.inr hseen
        · exact Or.inl hi
      · exact Or.inr hi
    next =>
      split at hlook
      next => cases hlook
      next =>
        cases hlook
        rcases hi with hi | hi
        · exact Or.inl (List.mem_append_right _ hi)
        · exact Or.inr (List.mem_cons_of_mem _ hi)

theorem look_error {i : Nat} (hlook : s.look g = .error i) : (i, i) ∈ g.edges := by
  unfold look at hlook
  split at hlook
  next => cases hlook
  next top rest =>
    split at hlook
    next => cases hlook
    next =>
      split at hlook
      next hloop =>
        cases hlook
        exact Graph.mem_dependents.mp hloop
      next => cases hlook

/-! ## The fuel -/

/-- What looks are still to come at most: one for each entry of the stack, and one for
each unseen node and each of its dependents. -/
def remaining (g : Graph) (s : Sweep) : Nat :=
  s.stack.length + ∑ i ∈ g.nodes.toFinset with i ∉ s.seen, (1 + (g.dependents i).length)

/-- Every edge is charged to the one node it comes from. -/
theorem sum_dependents_le (g : Graph) (nodes : Finset Nat) :
    ∑ i ∈ nodes, (g.dependents i).length ≤ g.edges.length := by
  unfold Graph.dependents
  induction g.edges with
  | nil => simp
  | cons edge edges ih =>
      have hcharge : ∀ i, ((edge :: edges).filterMap fun e =>
            if e.1 = i then some e.2 else none).length =
          (if edge.1 = i then 1 else 0) + (edges.filterMap fun e =>
            if e.1 = i then some e.2 else none).length := by
        intro i
        by_cases hfrom : edge.1 = i
        · simp [hfrom, Nat.add_comm]
        · simp [hfrom]
      have hone : ∑ i ∈ nodes, (if edge.1 = i then 1 else 0) ≤ 1 := by
        rw [Finset.sum_ite_eq]
        split <;> omega
      simp only [hcharge, Finset.sum_add_distrib, List.length_cons]
      omega

theorem remaining_le_fuel
    {i : Nat} (hnode : i ∈ g.nodes) :
    remaining g { s with stack := [i] } ≤ fuel g := by
  have hunseen : ∑ i ∈ g.nodes.toFinset with i ∉ s.seen, (1 + (g.dependents i).length) ≤
      ∑ i ∈ g.nodes.toFinset, (1 + (g.dependents i).length) :=
    Finset.sum_le_sum_of_subset (Finset.filter_subset _ _)
  have hedges := sum_dependents_le g g.nodes.toFinset
  have hcard : g.nodes.toFinset.card ≤ g.nodes.length := List.toFinset_card_le g.nodes
  have hpos : 0 < g.nodes.length := List.length_pos_of_mem hnode
  have htotal : ∑ i ∈ g.nodes.toFinset, (1 + (g.dependents i).length) =
      g.nodes.toFinset.card + ∑ i ∈ g.nodes.toFinset, (g.dependents i).length := by
    simp [Finset.sum_add_distrib]
  simp only [remaining, fuel, List.length_singleton]
  omega

theorem Sound.look_remaining
    (hsound : s.Sound g) (hwaiting : s.stack ≠ []) (hlook : s.look g = .ok t) :
    remaining g t + 1 ≤ remaining g s := by
  unfold Sweep.look at hlook
  split at hlook
  next hstack => exact absurd hstack hwaiting
  next top rest hstack =>
    split at hlook
    next =>
      cases hlook
      simp only [remaining, hstack, List.length_cons]
      omega
    next hunseen =>
      split at hlook
      next => cases hlook
      next =>
        cases hlook
        have hmem : top ∈ g.nodes.toFinset.filter (· ∉ s.seen) := by
          simpa [hunseen] using hsound.stack_nodes top (by simp [hstack])
        have herase : g.nodes.toFinset.filter (· ∉ top :: s.seen) =
            (g.nodes.toFinset.filter (· ∉ s.seen)).erase top := by
          ext i
          simp only [List.mem_cons, not_or, Finset.mem_filter, Finset.mem_erase]
          tauto
        have hcharge := Finset.add_sum_erase _ (fun i => 1 + (g.dependents i).length) hmem
        have hpushed := List.length_filter_le (fun i => decide (i ∉ top :: s.seen))
          (g.dependents top)
        simp only [remaining, hstack, herase, List.length_append, List.length_cons]
        omega

/-! ## Runs -/

/-- A run with enough fuel empties the stack and sees all that was on it. -/
theorem Sound.run
    {fuel : Nat} (hsound : s.Sound g) (hclosed : g.Closed)
    (hfuel : remaining g s ≤ fuel) (hrun : Sweep.run g fuel s = .ok t) :
    t.Sound g ∧ t.stack = [] ∧ ∀ i, i ∈ s.stack ∨ i ∈ s.seen → i ∈ t.seen := by
  induction fuel generalizing s with
  | zero =>
      cases hrun
      have hempty : t.stack = [] := by
        have hlength : t.stack.length = 0 := by
          unfold remaining at hfuel
          omega
        simpa using hlength
      refine ⟨hsound, hempty, ?_⟩
      intro i hi
      simpa [hempty] using hi
  | succ fuel ih =>
      simp only [Sweep.run] at hrun
      split at hrun
      next hempty =>
        cases hrun
        rw [List.isEmpty_iff] at hempty
        refine ⟨hsound, hempty, ?_⟩
        intro i hi
        simpa [hempty] using hi
      next hwaiting =>
        rw [List.isEmpty_iff] at hwaiting
        cases hlook : s.look g with
        | error i => simp [hlook, bind, Except.bind] at hrun
        | ok next =>
            rw [hlook] at hrun
            have hspent := hsound.look_remaining hwaiting hlook
            obtain ⟨htsound, hempty, hseen⟩ :=
              ih (hsound.look hclosed hlook) (by omega) hrun
            exact ⟨htsound, hempty, fun i hi => hseen i (look_keeps hlook hi)⟩

theorem run_error {fuel i : Nat} (hrun : run g fuel s = .error i) : (i, i) ∈ g.edges := by
  induction fuel generalizing s with
  | zero => cases hrun
  | succ fuel ih =>
      simp only [run] at hrun
      split at hrun
      next => cases hrun
      next =>
        cases hlook : s.look g with
        | error j =>
            rw [hlook] at hrun
            cases hrun
            exact look_error hlook
        | ok next =>
            rw [hlook] at hrun
            exact ih hrun

/-- Between two starts nothing waits. -/
structure Paused (g : Graph) (s : Sweep) : Prop extends Sound g s where
  stack_empty : s.stack = []

theorem paused_empty (g : Graph) : Paused g {} := by
  constructor
  · constructor <;> simp
  · rfl

theorem Paused.seen_order (hpaused : s.Paused g) {i : Nat} (hseen : i ∈ s.seen) :
    i ∈ s.order := by
  by_contra hopen
  have hon := hpaused.open_on_stack i hseen hopen
  rw [hpaused.stack_empty] at hon
  exact List.not_mem_nil hon

theorem Paused.put
    (hpaused : s.Paused g) {i : Nat} (hnode : i ∈ g.nodes) :
    Sound g { s with stack := [i] } := by
  constructor
  · exact hpaused.seen_nodes
  · intro j hj
    rw [List.mem_singleton.mp hj]
    exact hnode
  · exact hpaused.no_loop
  · exact hpaused.order_seen
  · exact hpaused.order_nodup
  · intro j hseen hopen
    exact absurd (hpaused.seen_order hseen) hopen
  · intro above j below _ _ hseen hopen
    exact absurd (hpaused.seen_order hseen) hopen
  · exact hpaused.done
  · exact hpaused.sorted

theorem Paused.start
    (hpaused : s.Paused g) (hclosed : g.Closed) {i : Nat} (hnode : i ∈ g.nodes)
    (hstart : Sweep.start g s i = .ok t) :
    t.Paused g ∧ i ∈ t.seen ∧ s.seen ⊆ t.seen := by
  unfold Sweep.start at hstart
  split at hstart
  next hseen =>
    cases hstart
    exact ⟨hpaused, hseen, List.Subset.refl _⟩
  next =>
    obtain ⟨hsound, hempty, hkept⟩ := (hpaused.put hnode).run hclosed
      (remaining_le_fuel hnode) hstart
    exact ⟨⟨hsound, hempty⟩, hkept i (by simp), fun j hj => hkept j (Or.inr hj)⟩

theorem Paused.starts
    (hpaused : s.Paused g) (hclosed : g.Closed) {nodes : List Nat}
    (hnodes : ∀ i ∈ nodes, i ∈ g.nodes)
    (hstarts : nodes.foldlM (Sweep.start g) s = .ok t) :
    t.Paused g ∧ (∀ i ∈ nodes, i ∈ t.seen) ∧ s.seen ⊆ t.seen := by
  induction nodes generalizing s with
  | nil =>
      cases hstarts
      simp [hpaused]
  | cons i nodes ih =>
      rw [List.foldlM_cons] at hstarts
      cases hstart : Sweep.start g s i with
      | error j => simp [hstart, bind, Except.bind] at hstarts
      | ok next =>
          rw [hstart] at hstarts
          obtain ⟨hnext, hseen, hgrows⟩ :=
            hpaused.start hclosed (hnodes i (by simp)) hstart
          obtain ⟨hpaused', hrest, hgrows'⟩ :=
            ih hnext (fun j hj => hnodes j (by simp [hj])) hstarts
          refine ⟨hpaused', ?_, List.Subset.trans hgrows hgrows'⟩
          intro j hj
          rcases List.mem_cons.mp hj with rfl | hj
          · exact hgrows' hseen
          · exact hrest j hj

theorem starts_error
    {nodes : List Nat} {i : Nat} (hstarts : nodes.foldlM (start g) s = .error i) :
    (i, i) ∈ g.edges := by
  induction nodes generalizing s with
  | nil => cases hstarts
  | cons node nodes ih =>
      rw [List.foldlM_cons] at hstarts
      cases hstart : start g s node with
      | error j =>
          rw [hstart] at hstarts
          cases hstarts
          unfold start at hstart
          split at hstart
          next => cases hstart
          next => exact run_error hstart
      | ok next =>
          rw [hstart] at hstarts
          exact ih hstarts

end Sweep

/-! ## The order of a graph -/

namespace Graph

variable {g : Graph} {order : List Nat}

/-- What a sweep ends with: all nodes, each once, none with an edge to itself, and an edge
against the order only on a cycle. -/
structure Swept (g : Graph) (order : List Nat) : Prop where
  nodup : order.Nodup
  mem_iff : ∀ i, i ∈ order ↔ i ∈ g.nodes
  no_loop : ∀ i ∈ g.nodes, (i, i) ∉ g.edges
  sorted : order.Pairwise fun i j => (j, i) ∈ g.edges → g.Path i j

theorem sweep_swept (hclosed : g.Closed) (hsweep : g.sweep = .ok order) :
    g.Swept order := by
  unfold sweep at hsweep
  cases hstarts : g.nodes.foldlM (Sweep.start g) {} with
  | error i => simp [hstarts, bind, Except.bind] at hsweep
  | ok last =>
      rw [hstarts] at hsweep
      cases hsweep
      obtain ⟨hpaused, hseen, -⟩ :=
        (Sweep.paused_empty g).starts hclosed (fun _ hi => hi) hstarts
      constructor
      · exact hpaused.order_nodup
      · intro i
        constructor
        · exact fun hi => hpaused.seen_nodes i (hpaused.order_seen i hi)
        · exact fun hi => hpaused.seen_order (hseen i hi)
      · exact fun i hi => hpaused.no_loop i (hseen i hi)
      · exact hpaused.sorted

theorem sweep_error {i : Nat} (hsweep : g.sweep = .error i) : (i, i) ∈ g.edges := by
  unfold sweep at hsweep
  cases hstarts : g.nodes.foldlM (Sweep.start g) {} with
  | error j =>
      rw [hstarts] at hsweep
      cases hsweep
      exact Sweep.starts_error hstarts
  | ok last => simp [hstarts, bind, Except.bind, pure, Except.pure] at hsweep

/-- What the check of an order looks for: a dependency of a member that is placed neither
before the order nor before the member. -/
theorem misplaced?_eq_none_iff {placed : List Nat} :
    g.misplaced? placed order = none ↔
      ∀ before i after, order = before ++ i :: after →
        ∀ j, (j, i) ∈ g.edges → j ≠ i → j ∈ placed ∨ j ∈ before := by
  induction order generalizing placed with
  | nil => simp [misplaced?]
  | cons first order ih =>
      have hhead : (g.dependencies first).find?
            (fun j => decide (j ≠ first) && decide (j ∉ placed)) = none ↔
          ∀ j, (j, first) ∈ g.edges → j ≠ first → j ∈ placed := by
        simp [List.find?_eq_none, mem_dependencies]
      unfold misplaced?
      constructor
      · intro hnone
        split at hnone
        next => cases hnone
        next hfind =>
          intro before i after hsplit j hedge hne
          cases before with
          | nil =>
              obtain ⟨rfl, -⟩ := List.cons.inj hsplit
              exact Or.inl (hhead.mp hfind j hedge hne)
          | cons _ before =>
              obtain ⟨rfl, hrest⟩ := List.cons.inj hsplit
              rcases ih.mp hnone before i after hrest j hedge hne with hj | hj
              · rcases List.mem_cons.mp hj with rfl | hj
                · simp
                · exact Or.inl hj
              · exact Or.inr (List.mem_cons_of_mem _ hj)
      · intro hplaced
        have hfind : (g.dependencies first).find?
            (fun j => decide (j ≠ first) && decide (j ∉ placed)) = none := by
          apply hhead.mpr
          intro j hedge hne
          simpa using hplaced [] first order rfl j hedge hne
        rw [hfind]
        apply ih.mpr
        intro before i after hsplit j hedge hne
        have hj := hplaced (first :: before) i after (by rw [hsplit, List.cons_append])
          j hedge hne
        simp only [List.mem_cons] at hj ⊢
        tauto

/-- An order that is given lists every node once, each after its dependencies. -/
structure Ordered (g : Graph) (order : List Nat) : Prop where
  nodup : order.Nodup
  mem_iff : ∀ i, i ∈ order ↔ i ∈ g.nodes
  respects : g.Respects order

theorem Swept.ordered
    (hswept : g.Swept order) (hclosed : g.Closed)
    (hplaced : g.misplaced? [] order = none) :
    g.Ordered order := by
  refine ⟨hswept.nodup, hswept.mem_iff, ?_⟩
  intro before i after hsplit j hedge
  have hne : j ≠ i := by
    rintro rfl
    exact hswept.no_loop j (hclosed j j hedge).1 hedge
  simpa using misplaced?_eq_none_iff.mp hplaced before i after hsplit j hedge hne

/-- In a graph without cycles the sweep needs no correction. -/
theorem Swept.misplaced?_eq_none
    (hswept : g.Swept order) (hclosed : g.Closed) (hacyclic : g.Acyclic) :
    g.misplaced? [] order = none := by
  apply misplaced?_eq_none_iff.mpr
  rintro before i after rfl j hedge hne
  have hj : j ∈ before ++ i :: after := (hswept.mem_iff j).mpr (hclosed j i hedge).1
  rcases List.mem_append.mp hj with hj | hj
  · exact Or.inr hj
  · have hafter : j ∈ after := (List.mem_cons.mp hj).resolve_left hne
    have hsorted := (List.pairwise_append.mp hswept.sorted).2.1
    have hpath : g.Path i j := (List.pairwise_cons.mp hsorted).1 j hafter hedge
    exact absurd (hpath.tail hedge) (hacyclic i)

theorem order_ordered (hclosed : g.Closed) (horder : g.order = .ok order) :
    g.Ordered order := by
  unfold Graph.order at horder
  cases hsweep : g.sweep with
  | error i => simp [hsweep, bind, Except.bind] at horder
  | ok found =>
      simp only [hsweep, bind, Except.bind] at horder
      split at horder
      next => cases horder
      next hplaced =>
        cases horder
        exact (sweep_swept hclosed hsweep).ordered hclosed hplaced

/-- The nodes have an order exactly when the graph has no cycle. -/
theorem exists_order_iff (hclosed : g.Closed) :
    (∃ order, g.order = .ok order) ↔ g.Acyclic := by
  constructor
  · rintro ⟨order, horder⟩
    have hordered := order_ordered hclosed horder
    exact hordered.respects.acyclic hclosed fun i hi => (hordered.mem_iff i).mpr hi
  · intro hacyclic
    cases hsweep : g.sweep with
    | error i => exact absurd (Relation.TransGen.single (sweep_error hsweep)) (hacyclic i)
    | ok found =>
        have hplaced :=
          (sweep_swept hclosed hsweep).misplaced?_eq_none hclosed hacyclic
        exact ⟨found, by
          simp [Graph.order, hsweep, hplaced, bind, Except.bind, pure, Except.pure]⟩

end Graph

end WorkPlan

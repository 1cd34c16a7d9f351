import Mathlib.Data.String.Basic
import Mathlib.Tactic
import WorkPlan.Graph.Validation
import WorkPlan.Plan
import WorkPlan.Proofs.FirstError
import WorkPlan.Proofs.Reachability
import WorkPlan.Proofs.Sweeping

/-!
# Which plans are accepted

A plan is accepted when its steps have different names, every name that a step waits for
is borne by a step of the plan, and the dependencies of both kinds have no cycle.  The
three conditions speak of the steps of the plan only, not of the way in which they are
found; a refusal names the first condition that fails.
-/

namespace WorkPlan

namespace Catalog

variable {c : Catalog} {roots : List Nat}

/-- A dependency and its dependent in the plan: the dependent holds the dependency, or
waits for a step of the plan by its name. -/
def Dependency (c : Catalog) (roots : List Nat) (j i : Nat) : Prop :=
  c.Reachable roots i ∧
    (j ∈ c.handles i ∨ (c.Reachable roots j ∧ c.name j ∈ (c.step i).namedWaits))

/-- Two steps of the plan bear the name. -/
def SharedName (c : Catalog) (roots : List Nat) (name : String) : Prop :=
  ∃ i j, c.Reachable roots i ∧ c.Reachable roots j ∧ i ≠ j ∧
    c.name i = name ∧ c.name j = name

/-- The step waits for a name that no step of the plan bears. -/
def UnknownWait (c : Catalog) (roots : List Nat) (i : Nat) (name : String) : Prop :=
  c.Reachable roots i ∧ name ∈ (c.step i).namedWaits ∧
    ∀ j, c.Reachable roots j → c.name j ≠ name

/-- Steps of the plan are told apart by their names. -/
def DistinctNames (c : Catalog) (roots : List Nat) : Prop :=
  ∀ i j, c.Reachable roots i → c.Reachable roots j → c.name i = c.name j → i = j

def KnownWaits (c : Catalog) (roots : List Nat) : Prop :=
  ∀ i, c.Reachable roots i → ∀ name ∈ (c.step i).namedWaits,
    ∃ j, c.Reachable roots j ∧ c.name j = name

/-- No chain of dependencies leads from a step back to it. -/
def NoCycle (c : Catalog) (roots : List Nat) : Prop :=
  ∀ i, ¬ Relation.TransGen (c.Dependency roots) i i

structure Acceptable (c : Catalog) (roots : List Nat) : Prop where
  distinct : c.DistinctNames roots
  known : c.KnownWaits roots
  noCycle : c.NoCycle roots

theorem Dependency.reachable {i j : Nat} (hdependency : c.Dependency roots j i) :
    c.Reachable roots j := by
  rcases hdependency with ⟨hi, hheld | ⟨hj, -⟩⟩
  · exact .held hi hheld
  · exact hj

theorem distinctNames_iff_forall_not_shared :
    c.DistinctNames roots ↔ ∀ name, ¬ c.SharedName roots name := by
  constructor
  · rintro hdistinct name ⟨i, j, hi, hj, hne, hname, hname'⟩
    exact hne (hdistinct i j hi hj (hname.trans hname'.symm))
  · intro hnone i j hi hj hname
    by_contra hne
    exact hnone (c.name i) ⟨i, j, hi, hj, hne, rfl, hname.symm⟩

theorem knownWaits_iff_forall_not_unknown :
    c.KnownWaits roots ↔ ∀ i name, ¬ c.UnknownWait roots i name := by
  constructor
  · rintro hknown i name ⟨hi, hwait, hnone⟩
    obtain ⟨j, hj, hname⟩ := hknown i hi name hwait
    exact hnone j hj hname
  · intro hnone i hi name hwait
    by_contra hunknown
    push Not at hunknown
    exact hnone i name ⟨hi, hwait, hunknown⟩

end Catalog

/-! ## Names -/

theorem leastName?_eq_none_iff {names : List String} :
    leastName? names = none ↔ names = [] := by
  cases names with
  | nil => simp [leastName?]
  | cons name rest =>
      simp only [leastName?, reduceCtorEq, iff_false]
      split
      · simp
      · split <;> simp

theorem leastName?_eq_some
    {names : List String} {least : String} (hleast : leastName? names = some least) :
    least ∈ names ∧ ∀ name ∈ names, least ≤ name := by
  induction names generalizing least with
  | nil => cases hleast
  | cons first rest ih =>
      unfold leastName? at hleast
      split at hleast
      next hnone =>
        cases hleast
        simp [leastName?_eq_none_iff.mp hnone]
      next other hother =>
        obtain ⟨hmem, hle⟩ := ih hother
        split at hleast
        next hlt =>
          cases hleast
          refine ⟨List.mem_cons_of_mem _ hmem, ?_⟩
          intro name hname
          rcases List.mem_cons.mp hname with rfl | hname
          · exact hlt.le
          · exact hle name hname
        next hnlt =>
          cases hleast
          refine ⟨List.mem_cons_self, ?_⟩
          intro name hname
          rcases List.mem_cons.mp hname with rfl | hname
          · exact le_refl _
          · exact (not_lt.mp hnlt).trans (hle name hname)

namespace Graph

variable {c : Catalog} {g : Graph}

theorem mem_sharedNames (hnodup : g.nodes.Nodup) {name : String} :
    name ∈ g.sharedNames c ↔
      ∃ i j, i ∈ g.nodes ∧ j ∈ g.nodes ∧ i ≠ j ∧ c.name i = name ∧ c.name j = name := by
  let bearers := g.nodes.filter fun i => c.name i = name
  have hcount : (g.nodes.map c.name).count name = bearers.length := by
    rw [List.count_eq_countP, List.countP_map, List.countP_eq_length_filter]
    rfl
  have hbearers : bearers.Nodup := hnodup.filter _
  have hmem : ∀ i, i ∈ bearers ↔ i ∈ g.nodes ∧ c.name i = name := by
    simp [bearers]
  simp only [sharedNames, List.mem_filter, hcount, decide_eq_true_eq]
  constructor
  · rintro ⟨-, hmany⟩
    match bearers, hmany with
    | i :: j :: _, _ =>
        have hi := (hmem i).mp (by simp)
        have hj := (hmem j).mp (by simp)
        have hne : i ≠ j := by
          rintro rfl
          simp at hbearers
        exact ⟨i, j, hi.1, hj.1, hne, hi.2, hj.2⟩
  · rintro ⟨i, j, hi, hj, hne, hname, hname'⟩
    have hpair : [i, j] ⊆ bearers := by
      simp [hmem, hi, hj, hname, hname']
    have hlength := List.Nodup.length_le_of_subset (by simp [hne] : [i, j].Nodup) hpair
    exact ⟨List.mem_map.mpr ⟨i, hi, hname⟩, hlength⟩

theorem named?_eq_some_iff
    (hdistinct : ∀ i ∈ g.nodes, ∀ j ∈ g.nodes, c.name i = c.name j → i = j)
    {name : String} {j : Nat} :
    g.named? c name = some j ↔ j ∈ g.nodes ∧ c.name j = name := by
  constructor
  · intro hnamed
    exact ⟨List.mem_of_find?_eq_some hnamed, by simpa using List.find?_some hnamed⟩
  · rintro ⟨hj, hname⟩
    cases hnamed : g.named? c name with
    | none =>
        have hnone := List.find?_eq_none.mp hnamed j hj
        simp [hname] at hnone
    | some i =>
        have hi : i ∈ g.nodes := List.mem_of_find?_eq_some hnamed
        have hsame : c.name i = name := by simpa using List.find?_some hnamed
        rw [hdistinct i hi j hj (hsame.trans hname.symm)]

theorem named?_eq_none_iff {name : String} :
    g.named? c name = none ↔ ∀ j ∈ g.nodes, c.name j ≠ name := by
  simp [named?, List.find?_eq_none]

/-! ## Edges for dependencies by name -/

theorem mem_namedEdges
    {named : List (Nat × Nat)} (hnamed : g.namedEdges c = .ok named) {j i : Nat} :
    (j, i) ∈ named ↔
      i ∈ g.nodes ∧ ∃ name ∈ (c.step i).namedWaits, g.named? c name = some j := by
  unfold namedEdges at hnamed
  rw [mem_of_mapM_eq_ok hnamed]
  constructor
  · rintro ⟨⟨k, name⟩, hwait, hfound⟩
    obtain ⟨k', hk, hwait⟩ := List.mem_flatMap.mp hwait
    obtain ⟨name', hname, hpair⟩ := List.mem_map.mp hwait
    obtain ⟨rfl, rfl⟩ := Prod.mk.inj hpair
    simp only at hfound
    split at hfound
    next bearer hbearer =>
      cases hfound
      exact ⟨hk, name', hname, hbearer⟩
    next => cases hfound
  · rintro ⟨hi, name, hname, hfound⟩
    refine ⟨(i, name), ?_, by simp [hfound]⟩
    exact List.mem_flatMap.mpr ⟨i, hi, List.mem_map.mpr ⟨name, hname, rfl⟩⟩

theorem namedEdges_error
    {e : PlanError} (hnamed : g.namedEdges c = .error e) :
    ∃ i ∈ g.nodes, ∃ name ∈ (c.step i).namedWaits,
      g.named? c name = none ∧ e = .unknownDependency (c.name i) name := by
  unfold namedEdges at hnamed
  obtain ⟨before, ⟨i, name⟩, after, hsplit, -, hfault⟩ := mapM_eq_error_iff.mp hnamed
  have hwait : (i, name) ∈ g.nodes.flatMap fun i =>
      (c.step i).namedWaits.map fun name => (i, name) := by
    rw [hsplit]
    simp
  obtain ⟨i', hi, hwait⟩ := List.mem_flatMap.mp hwait
  obtain ⟨name', hname, hpair⟩ := List.mem_map.mp hwait
  obtain ⟨rfl, rfl⟩ := Prod.mk.inj hpair
  simp only at hfault
  split at hfault
  next => cases hfault
  next hnone =>
    cases hfault
    exact ⟨i', hi, name', hname, hnone, rfl⟩

def connectAll (g : Graph) (edges : List (Nat × Nat)) : Graph :=
  edges.foldl (fun g edge => g.connect edge.1 edge.2) g

@[simp] theorem connectAll_nodes (g : Graph) (edges : List (Nat × Nat)) :
    (g.connectAll edges).nodes = g.nodes := by
  induction edges generalizing g with
  | nil => rfl
  | cons edge edges ih => exact (ih _).trans (g.connect_nodes edge.1 edge.2)

theorem mem_connectAll_edges {edges : List (Nat × Nat)} {edge : Nat × Nat} :
    edge ∈ (g.connectAll edges).edges ↔ edge ∈ g.edges ∨ edge ∈ edges := by
  induction edges generalizing g with
  | nil => simp [connectAll]
  | cons first edges ih =>
      have hrest := ih (g := g.connect first.1 first.2)
      rw [mem_connect_edges, or_assoc] at hrest
      exact hrest.trans (by rw [List.mem_cons])

theorem connectAll_edges_nodup
    (hedges : g.edges.Nodup) (edges : List (Nat × Nat)) :
    (g.connectAll edges).edges.Nodup := by
  induction edges generalizing g with
  | nil => exact hedges
  | cons edge edges ih => exact ih (connect_edges_nodup hedges edge.1 edge.2)

end Graph

/-! ## The three checks in turn -/

namespace OrderedGraph

variable {c : Catalog} {roots : List Nat}

theorem build_of_shared
    {name : String}
    (hleast : leastName? ((Graph.discover c roots).sharedNames c) = some name) :
    build c roots = .error (.duplicateName name) := by
  simp [build, hleast, throw, throwThe, MonadExceptOf.throw, bind, Except.bind]

theorem build_of_unknown
    {e : PlanError}
    (hleast : leastName? ((Graph.discover c roots).sharedNames c) = none)
    (hnamed : (Graph.discover c roots).namedEdges c = .error e) :
    build c roots = .error e := by
  simp [build, hleast, hnamed, bind, Except.bind]

theorem build_of_named
    {named : List (Nat × Nat)}
    (hleast : leastName? ((Graph.discover c roots).sharedNames c) = none)
    (hnamed : (Graph.discover c roots).namedEdges c = .ok named) :
    build c roots =
      match ((Graph.discover c roots).connectAll named).order with
      | .ok order => .ok ⟨(Graph.discover c roots).connectAll named, order⟩
      | .error i => .error (.cycle (c.name i)) := by
  unfold Graph.connectAll
  cases horder : (named.foldl (fun g edge => g.connect edge.1 edge.2)
      (Graph.discover c roots)).order with
  | ok order => simp [build, hleast, hnamed, horder, bind, Except.bind, pure, Except.pure]
  | error i =>
      simp [build, hleast, hnamed, horder, bind, Except.bind, throw, throwThe,
        MonadExceptOf.throw]

theorem mem_sharedNames_discover {name : String} :
    name ∈ (Graph.discover c roots).sharedNames c ↔ c.SharedName roots name := by
  rw [Graph.mem_sharedNames (Graph.discover_nodes_nodup c roots)]
  simp only [Graph.mem_discover_nodes, Catalog.SharedName]

theorem leastName?_eq_none_iff_distinct :
    leastName? ((Graph.discover c roots).sharedNames c) = none ↔ c.DistinctNames roots := by
  rw [leastName?_eq_none_iff, Catalog.distinctNames_iff_forall_not_shared,
    List.eq_nil_iff_forall_not_mem]
  exact forall_congr' fun name => not_congr mem_sharedNames_discover

theorem named?_discover
    (hdistinct : c.DistinctNames roots) {name : String} {j : Nat} :
    (Graph.discover c roots).named? c name = some j ↔
      c.Reachable roots j ∧ c.name j = name := by
  rw [Graph.named?_eq_some_iff, Graph.mem_discover_nodes]
  intro i hi k hk hname
  exact hdistinct i k (Graph.mem_discover_nodes.mp hi) (Graph.mem_discover_nodes.mp hk) hname

theorem unknownWait_of_namedEdges_error
    {e : PlanError} (hnamed : (Graph.discover c roots).namedEdges c = .error e) :
    ∃ i name, c.UnknownWait roots i name ∧ e = .unknownDependency (c.name i) name := by
  obtain ⟨i, hi, name, hwait, hnone, rfl⟩ := Graph.namedEdges_error hnamed
  refine ⟨i, name, ⟨Graph.mem_discover_nodes.mp hi, hwait, ?_⟩, rfl⟩
  intro j hj
  exact Graph.named?_eq_none_iff.mp hnone j (Graph.mem_discover_nodes.mpr hj)

theorem knownWaits_of_namedEdges_ok
    {named : List (Nat × Nat)}
    (hnamed : (Graph.discover c roots).namedEdges c = .ok named) :
    c.KnownWaits roots := by
  intro i hi name hwait
  have hitem : (i, name) ∈ (Graph.discover c roots).nodes.flatMap fun i =>
      (c.step i).namedWaits.map fun name => (i, name) :=
    List.mem_flatMap.mpr ⟨i, Graph.mem_discover_nodes.mpr hi,
      List.mem_map.mpr ⟨name, hwait, rfl⟩⟩
  obtain ⟨edge, hedge⟩ := exists_of_mapM_eq_ok hnamed hitem
  simp only at hedge
  split at hedge
  next j hj =>
    exact ⟨j, Graph.mem_discover_nodes.mp (List.mem_of_find?_eq_some hj),
      by simpa using List.find?_some hj⟩
  next => cases hedge

theorem mem_named_edges
    (hdistinct : c.DistinctNames roots) {named : List (Nat × Nat)}
    (hnamed : (Graph.discover c roots).namedEdges c = .ok named) {j i : Nat} :
    (j, i) ∈ ((Graph.discover c roots).connectAll named).edges ↔
      c.Dependency roots j i := by
  rw [Graph.mem_connectAll_edges, Graph.mem_discover_edges, Graph.mem_namedEdges hnamed,
    Graph.mem_discover_nodes]
  simp only [named?_discover hdistinct]
  constructor
  · rintro (⟨hi, hheld⟩ | ⟨hi, name, hwait, hj, rfl⟩)
    · exact ⟨hi, Or.inl hheld⟩
    · exact ⟨hi, Or.inr ⟨hj, hwait⟩⟩
  · rintro ⟨hi, hheld | ⟨hj, hwait⟩⟩
    · exact Or.inl ⟨hi, hheld⟩
    · exact Or.inr ⟨hi, c.name j, hwait, hj, rfl⟩

theorem named_closed
    (hdistinct : c.DistinctNames roots) {named : List (Nat × Nat)}
    (hnamed : (Graph.discover c roots).namedEdges c = .ok named) :
    ((Graph.discover c roots).connectAll named).Closed := by
  intro j i hedge
  have hdependency := (mem_named_edges hdistinct hnamed).mp hedge
  simp only [Graph.connectAll_nodes, Graph.mem_discover_nodes]
  exact ⟨hdependency.reachable, hdependency.1⟩

theorem named_acyclic_iff
    (hdistinct : c.DistinctNames roots) {named : List (Nat × Nat)}
    (hnamed : (Graph.discover c roots).namedEdges c = .ok named) :
    ((Graph.discover c roots).connectAll named).Acyclic ↔ c.NoCycle roots := by
  have hedges : (fun j i => (j, i) ∈ ((Graph.discover c roots).connectAll named).edges) =
      c.Dependency roots := by
    funext j i
    exact propext (mem_named_edges hdistinct hnamed)
  unfold Graph.Acyclic Graph.Path Catalog.NoCycle
  rw [hedges]

/-- What a graph that is built has: the steps of the plan as nodes and their dependencies
as edges, each once, and an order that respects them. -/
structure Valid (c : Catalog) (roots : List Nat) (g : OrderedGraph) : Prop where
  nodes_nodup : g.graph.nodes.Nodup
  mem_nodes : ∀ i, i ∈ g.graph.nodes ↔ c.Reachable roots i
  edges_nodup : g.graph.edges.Nodup
  mem_edges : ∀ j i, (j, i) ∈ g.graph.edges ↔ c.Dependency roots j i
  ordered : g.graph.Ordered g.order
  distinct : c.DistinctNames roots
  known : c.KnownWaits roots

theorem build_valid {g : OrderedGraph} (hbuild : build c roots = .ok g) :
    g.Valid c roots := by
  cases hleast : leastName? ((Graph.discover c roots).sharedNames c) with
  | some name => simp [build_of_shared hleast] at hbuild
  | none =>
      have hdistinct := leastName?_eq_none_iff_distinct.mp hleast
      cases hnamed : (Graph.discover c roots).namedEdges c with
      | error e => simp [build_of_unknown hleast hnamed] at hbuild
      | ok named =>
          rw [build_of_named hleast hnamed] at hbuild
          split at hbuild
          next order horder =>
            cases hbuild
            constructor
            · simpa using Graph.discover_nodes_nodup c roots
            · intro i
              simpa using Graph.mem_discover_nodes
            · exact Graph.connectAll_edges_nodup (Graph.discover_edges_nodup c roots) named
            · exact fun j i => mem_named_edges hdistinct hnamed
            · exact Graph.order_ordered (named_closed hdistinct hnamed) horder
            · exact hdistinct
            · exact knownWaits_of_namedEdges_ok hnamed
          next => cases hbuild

theorem Valid.closed {g : OrderedGraph} (hvalid : g.Valid c roots) : g.graph.Closed := by
  intro j i hedge
  have hdependency := (hvalid.mem_edges j i).mp hedge
  exact ⟨(hvalid.mem_nodes j).mpr hdependency.reachable, (hvalid.mem_nodes i).mpr hdependency.1⟩

theorem Valid.noCycle {g : OrderedGraph} (hvalid : g.Valid c roots) : c.NoCycle roots := by
  have hacyclic : g.graph.Acyclic := hvalid.ordered.respects.acyclic hvalid.closed
    fun i hi => (hvalid.ordered.mem_iff i).mpr hi
  intro i hcycle
  exact hacyclic i (Relation.TransGen.mono
    (fun j k hdependency => (hvalid.mem_edges j k).mpr hdependency) i i hcycle)

theorem exists_build_of_acceptable (haccept : c.Acceptable roots) :
    ∃ g, build c roots = .ok g := by
  have hleast := leastName?_eq_none_iff_distinct.mpr haccept.distinct
  cases hnamed : (Graph.discover c roots).namedEdges c with
  | error e =>
      obtain ⟨i, name, hunknown, -⟩ := unknownWait_of_namedEdges_error hnamed
      exact absurd hunknown
        (Catalog.knownWaits_iff_forall_not_unknown.mp haccept.known i name)
  | ok named =>
      have hacyclic := (named_acyclic_iff haccept.distinct hnamed).mpr haccept.noCycle
      obtain ⟨order, horder⟩ :=
        (Graph.exists_order_iff (named_closed haccept.distinct hnamed)).mpr hacyclic
      exact ⟨_, by rw [build_of_named hleast hnamed, horder]⟩

theorem exists_build_iff (c : Catalog) (roots : List Nat) :
    (∃ g, build c roots = .ok g) ↔ c.Acceptable roots := by
  constructor
  · rintro ⟨g, hbuild⟩
    have hvalid := build_valid hbuild
    exact ⟨hvalid.distinct, hvalid.known, hvalid.noCycle⟩
  · exact exists_build_of_acceptable

/-! ## Refusals -/

theorem build_duplicateName (hshared : ¬ c.DistinctNames roots) :
    ∃ least, c.SharedName roots least ∧
      (∀ name, c.SharedName roots name → least ≤ name) ∧
      build c roots = .error (.duplicateName least) := by
  cases hleast : leastName? ((Graph.discover c roots).sharedNames c) with
  | none => exact absurd (leastName?_eq_none_iff_distinct.mp hleast) hshared
  | some least =>
      obtain ⟨hin, hle⟩ := leastName?_eq_some hleast
      exact ⟨least, mem_sharedNames_discover.mp hin,
        fun name hname => hle name (mem_sharedNames_discover.mpr hname),
        build_of_shared hleast⟩

theorem build_unknownDependency
    (hdistinct : c.DistinctNames roots) (hunknown : ¬ c.KnownWaits roots) :
    ∃ i name, c.UnknownWait roots i name ∧
      build c roots = .error (.unknownDependency (c.name i) name) := by
  have hleast := leastName?_eq_none_iff_distinct.mpr hdistinct
  cases hnamed : (Graph.discover c roots).namedEdges c with
  | ok named => exact absurd (knownWaits_of_namedEdges_ok hnamed) hunknown
  | error e =>
      obtain ⟨i, name, hwait, rfl⟩ := unknownWait_of_namedEdges_error hnamed
      exact ⟨i, name, hwait, build_of_unknown hleast hnamed⟩

theorem build_cycle
    (hdistinct : c.DistinctNames roots) (hknown : c.KnownWaits roots)
    (hcycle : ¬ c.NoCycle roots) :
    ∃ i, build c roots = .error (.cycle (c.name i)) := by
  have hleast := leastName?_eq_none_iff_distinct.mpr hdistinct
  cases hnamed : (Graph.discover c roots).namedEdges c with
  | error e =>
      obtain ⟨i, name, hunknown, -⟩ := unknownWait_of_namedEdges_error hnamed
      exact absurd hunknown (Catalog.knownWaits_iff_forall_not_unknown.mp hknown i name)
  | ok named =>
      cases horder : ((Graph.discover c roots).connectAll named).order with
      | error i => exact ⟨i, by rw [build_of_named hleast hnamed, horder]⟩
      | ok order =>
          have hacyclic := (Graph.exists_order_iff (named_closed hdistinct hnamed)).mp
            ⟨order, horder⟩
          exact absurd ((named_acyclic_iff hdistinct hnamed).mp hacyclic) hcycle

end OrderedGraph

/-! ## Plans -/

namespace Plan

theorem build_eq (c : Catalog) (name : String) (roots : List Nat) :
    build c name roots = (OrderedGraph.build c roots).map fun graph =>
      { name, graph, layers := graph.layers c } := by
  unfold build
  cases OrderedGraph.build c roots <;> rfl

theorem build_eq_ok
    {c : Catalog} {name : String} {roots : List Nat} {p : Plan}
    (hplan : build c name roots = .ok p) :
    OrderedGraph.build c roots = .ok p.graph ∧ p.layers = p.graph.layers c := by
  rw [build_eq] at hplan
  cases hgraph : OrderedGraph.build c roots with
  | error e => simp [hgraph, Except.map] at hplan
  | ok graph =>
      rw [hgraph] at hplan
      cases hplan
      exact ⟨rfl, rfl⟩

/-- Plans and their graphs are built from the same roots; the nodes are the steps of the
plan and the edges their dependencies.  A refusal tells of shared names first, then of
unknown names, then of a cycle. -/
theorem build_accepts_exactly (c : Catalog) (name : String) (roots : List Nat) :
    ((∃ g, OrderedGraph.build c roots = .ok g) ↔
      c.DistinctNames roots ∧ c.KnownWaits roots ∧ c.NoCycle roots) ∧
    ((∃ p, build c name roots = .ok p) ↔
      c.DistinctNames roots ∧ c.KnownWaits roots ∧ c.NoCycle roots) ∧
    (∀ p, build c name roots = .ok p → OrderedGraph.build c roots = .ok p.graph) ∧
    (∀ e, build c name roots = .error e ↔ OrderedGraph.build c roots = .error e) ∧
    (∀ g, OrderedGraph.build c roots = .ok g →
      g.graph.nodes.Nodup ∧ (∀ i, i ∈ g.graph.nodes ↔ c.Reachable roots i) ∧
      g.graph.edges.Nodup ∧ (∀ j i, (j, i) ∈ g.graph.edges ↔ c.Dependency roots j i)) ∧
    (¬ c.DistinctNames roots →
      ∃ least, c.SharedName roots least ∧
        (∀ other, c.SharedName roots other → least ≤ other) ∧
        OrderedGraph.build c roots = .error (.duplicateName least)) ∧
    (c.DistinctNames roots → ¬ c.KnownWaits roots →
      ∃ i dependency, c.UnknownWait roots i dependency ∧
        OrderedGraph.build c roots = .error (.unknownDependency (c.name i) dependency)) ∧
    (c.DistinctNames roots → c.KnownWaits roots → ¬ c.NoCycle roots →
      ∃ i, OrderedGraph.build c roots = .error (.cycle (c.name i))) := by
  have hgraph : (∃ g, OrderedGraph.build c roots = .ok g) ↔
      c.DistinctNames roots ∧ c.KnownWaits roots ∧ c.NoCycle roots := by
    rw [OrderedGraph.exists_build_iff]
    exact ⟨fun h => ⟨h.distinct, h.known, h.noCycle⟩, fun h => ⟨h.1, h.2.1, h.2.2⟩⟩
  refine ⟨hgraph, ?_, ?_, ?_, ?_, OrderedGraph.build_duplicateName,
    OrderedGraph.build_unknownDependency, OrderedGraph.build_cycle⟩
  · rw [← hgraph, build_eq]
    cases OrderedGraph.build c roots <;> simp [Except.map]
  · intro p hplan
    exact (build_eq_ok hplan).1
  · intro e
    rw [build_eq]
    cases OrderedGraph.build c roots <;> simp [Except.map]
  · intro g hbuild
    have hvalid := OrderedGraph.build_valid hbuild
    exact ⟨hvalid.nodes_nodup, hvalid.mem_nodes, hvalid.edges_nodup, hvalid.mem_edges⟩

end Plan

end WorkPlan

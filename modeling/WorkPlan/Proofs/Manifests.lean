import Mathlib.Tactic
import WorkPlan.Proofs.Drafting
import WorkPlan.Proofs.Mirroring

/-!
# Manifests and the graph of a plan

A manifest lists the names of the steps that a step depends on: first those that it holds,
each step once, and then the names that it waits for, each name once.  The graph joins the
same dependencies by number, after it has looked the names up.  In an accepted plan names
tell steps apart, so the two lists have the same entries: what a step holds and waits for by
name besides is counted once in both.
-/

namespace WorkPlan

/-! ## Names that are listed once -/

/-- Adds a name to a list, unless it is there. -/
def listOnce (names : List String) (name : String) : List String :=
  if name ∈ names then names else names ++ [name]

theorem mem_listOnce {names : List String} {name other : String} :
    other ∈ listOnce names name ↔ other ∈ names ∨ other = name := by
  unfold listOnce
  split
  next hlisted =>
    constructor
    · exact Or.inl
    · rintro (hother | rfl)
      · exact hother
      · exact hlisted
  next => simp

theorem listOnce_nodup {names : List String} (hnames : names.Nodup) (name : String) :
    (listOnce names name).Nodup := by
  unfold listOnce
  split
  next => exact hnames
  next hnew =>
    rw [← List.concat_eq_append]
    exact hnames.concat hnew

theorem mem_foldl_listOnce {names added : List String} {name : String} :
    name ∈ added.foldl listOnce names ↔ name ∈ names ∨ name ∈ added := by
  induction added generalizing names with
  | nil => simp
  | cons first added ih => rw [List.foldl_cons, ih, mem_listOnce, List.mem_cons, or_assoc]

theorem foldl_listOnce_nodup
    {names : List String} (hnames : names.Nodup) (added : List String) :
    (added.foldl listOnce names).Nodup := by
  induction added generalizing names with
  | nil => exact hnames
  | cons first added ih => exact ih (listOnce_nodup hnames first)

namespace Catalog

variable {c : Catalog} {roots : List Nat} {i : Nat}

theorem dependsOn_eq (c : Catalog) (i : Nat) :
    (c.manifest i).dependsOn =
      (c.step i).namedWaits.foldl listOnce ((c.handles i).map c.name) :=
  rfl

theorem handles_names_nodup (hdistinct : c.DistinctNames roots) (hi : c.Reachable roots i) :
    ((c.handles i).map c.name).Nodup := by
  apply List.Nodup.map_on _ (listedOnce_eraseDups _).nodup
  intro j hj k hk hname
  exact hdistinct j k (.held hi hj) (.held hi hk) hname

theorem dependsOn_nodup (hdistinct : c.DistinctNames roots) (hi : c.Reachable roots i) :
    (c.manifest i).dependsOn.Nodup := by
  rw [dependsOn_eq]
  exact foldl_listOnce_nodup (handles_names_nodup hdistinct hi) _

theorem mem_dependsOn_iff
    (hknown : c.KnownWaits roots) (hi : c.Reachable roots i) {name : String} :
    name ∈ (c.manifest i).dependsOn ↔ ∃ j, c.Dependency roots j i ∧ c.name j = name := by
  rw [dependsOn_eq, mem_foldl_listOnce, List.mem_map]
  constructor
  · rintro (⟨j, hj, rfl⟩ | hwait)
    · exact ⟨j, ⟨hi, Or.inl hj⟩, rfl⟩
    · obtain ⟨j, hj, rfl⟩ := hknown i hi name hwait
      exact ⟨j, ⟨hi, Or.inr ⟨hj, hwait⟩⟩, rfl⟩
  · rintro ⟨j, ⟨-, hj | ⟨-, hwait⟩⟩, rfl⟩
    · exact Or.inl ⟨j, hj, rfl⟩
    · exact Or.inr hwait

end Catalog

/-! ## Edges -/

namespace Graph

theorem dependencies_length (g : Graph) (i : Nat) :
    (g.dependencies i).length = (g.edges.map Prod.snd).count i := by
  unfold dependencies
  rw [List.length_filterMap_eq_countP, List.count_eq_countP, List.countP_map]
  congr 1
  funext edge
  by_cases hedge : edge.2 = i <;> simp [hedge]

theorem dependencies_nodup {g : Graph} (hedges : g.edges.Nodup) (i : Nat) :
    (g.dependencies i).Nodup := by
  apply hedges.filterMap
  rintro ⟨j, k⟩ ⟨j', k'⟩ l hl hl'
  simp only [Option.mem_def, Option.ite_none_right_eq_some, Option.some.injEq] at hl hl'
  obtain ⟨rfl, rfl⟩ := hl
  obtain ⟨rfl, rfl⟩ := hl'
  rfl

/-- Every edge belongs to the one step that it leads to. -/
theorem sum_dependencies_eq
    {g : Graph} {steps : List Nat} (hsteps : steps.Nodup)
    (hedges : ∀ j i, (j, i) ∈ g.edges → i ∈ steps) :
    (steps.map fun i => (g.dependencies i).length).sum = g.edges.length := by
  -- The edges are counted by their ends, which are all among the steps.
  have hcounted : ∀ i ∈ (↑(g.edges.map Prod.snd) : Multiset Nat), i ∈ steps.toFinset := by
    intro i hi
    obtain ⟨⟨j, _⟩, hedge, rfl⟩ := List.mem_map.mp (Multiset.mem_coe.mp hi)
    exact List.mem_toFinset.mpr (hedges j _ hedge)
  have hsum := Multiset.sum_count_eq_card hcounted
  rw [Multiset.coe_card, List.length_map] at hsum
  rw [← hsum, ← List.sum_toFinset _ hsteps]
  apply Finset.sum_congr rfl
  intro i _
  rw [dependencies_length, Multiset.coe_count]

end Graph

namespace OrderedGraph

variable {c : Catalog} {roots : List Nat} {g : OrderedGraph}

theorem Valid.dependsOn_perm
    (hvalid : g.Valid c roots) {i : Nat} (hi : c.Reachable roots i) :
    (c.manifest i).dependsOn.Perm ((g.graph.dependencies i).map c.name) := by
  have hnames : ((g.graph.dependencies i).map c.name).Nodup := by
    apply List.Nodup.map_on _ (Graph.dependencies_nodup hvalid.edges_nodup i)
    intro j hj k hk hname
    exact hvalid.distinct j k (hvalid.mem_dependencies.mp hj).reachable
      (hvalid.mem_dependencies.mp hk).reachable hname
  apply (List.perm_ext_iff_of_nodup (Catalog.dependsOn_nodup hvalid.distinct hi) hnames).mpr
  intro name
  rw [Catalog.mem_dependsOn_iff hvalid.known hi, List.mem_map]
  simp only [hvalid.mem_dependencies]

/-- Along the layers the depth never falls. -/
theorem layers_flatten_climb (c : Catalog) (g : OrderedGraph) :
    (g.layers c).flatten.Pairwise fun i j => g.depth i ≤ g.depth j := by
  rw [List.pairwise_flatten]
  constructor
  · intro layer hlayer
    obtain ⟨k, -, rfl⟩ := mem_layers.mp hlayer
    apply List.pairwise_of_forall_mem_list
    intro i hi j hj
    rw [(mem_layerAt.mp hi).2, (mem_layerAt.mp hj).2]
  · rw [layers_eq, List.pairwise_map]
    refine List.pairwise_lt_range.imp ?_
    intro k m hlt i hi j hj
    rw [(mem_layerAt.mp hi).2, (mem_layerAt.mp hj).2]
    exact hlt.le

/-- Whatever a step depends on stands before it in the layers. -/
theorem Valid.mem_before_of_dependency
    (hvalid : g.Valid c roots) {before after : List Nat} {i j : Nat}
    (hsplit : (g.layers c).flatten = before ++ i :: after)
    (hdependency : c.Dependency roots j i) :
    j ∈ before := by
  have hlt := hvalid.depth_lt hdependency
  have hmem : j ∈ (g.layers c).flatten :=
    mem_layers_flatten.mpr (hvalid.mem_order.mpr hdependency.reachable)
  have hclimb := layers_flatten_climb c g
  rw [hsplit, List.pairwise_append, List.pairwise_cons] at hclimb
  rw [hsplit, List.mem_append, List.mem_cons] at hmem
  rcases hmem with hbefore | rfl | hafter
  · exact hbefore
  · exact absurd hlt (lt_irrefl _)
  · exact absurd (hclimb.2.1.1 j hafter) (not_le.mpr hlt)

end OrderedGraph

/-! ## Manifests of a plan -/

namespace Plan

variable {c : Catalog} {name : String} {roots : List Nat} {p : Plan}

theorem sum_dependsOn_eq (hplan : build c name roots = .ok p) :
    ((p.manifests c).map fun m => m.dependsOn.length).sum = p.graph.edgeCount := by
  have hvalid := build_valid hplan
  have hlengths : (p.manifests c).map (fun m => m.dependsOn.length) =
      p.steps.map fun i => (p.graph.graph.dependencies i).length := by
    rw [manifests, List.map_map]
    apply List.map_congr_left
    intro i hi
    have hperm := hvalid.dependsOn_perm ((mem_steps hplan).mp hi)
    simpa using hperm.length_eq
  rw [hlengths, OrderedGraph.edgeCount]
  apply Graph.sum_dependencies_eq (steps_nodup hplan)
  intro j i hedge
  exact (mem_steps hplan).mpr ((hvalid.mem_edges j i).mp hedge).1

theorem manifests_earlier
    (hplan : build c name roots = .ok p) {before after : List Manifest} {m : Manifest}
    (hsplit : p.manifests c = before ++ m :: after) {other : String}
    (hother : other ∈ m.dependsOn) :
    other ∈ before.map Manifest.name := by
  obtain ⟨first, rest, hsteps, rfl, hrest⟩ := List.map_eq_append_iff.mp hsplit
  obtain ⟨i, later, rfl, rfl, rfl⟩ := List.map_eq_cons_iff.mp hrest
  have hvalid := build_valid hplan
  have hi : i ∈ p.steps := by simp [hsteps]
  obtain ⟨j, hdependency, rfl⟩ :=
    (Catalog.mem_dependsOn_iff hvalid.known ((mem_steps hplan).mp hi)).mp hother
  rw [steps, (build_eq_ok hplan).2] at hsteps
  have hj := hvalid.mem_before_of_dependency hsteps hdependency
  rw [List.map_map]
  exact List.mem_map.mpr ⟨j, hj, rfl⟩

/-- The manifests of an accepted plan say what its graph says.  There is one for each step,
in the order of the steps; it lists the names of the direct dependencies, each once; the
lists have as many entries as the graph has edges; and each entry is the name of an earlier
manifest. -/
theorem manifests_tell_graph (hplan : build c name roots = .ok p) :
    (∀ i ∈ p.steps, (c.manifest i).dependsOn.Nodup ∧
      ∀ other, other ∈ (c.manifest i).dependsOn ↔
        ∃ j, (j, i) ∈ p.graph.graph.edges ∧ c.name j = other) ∧
    ((p.manifests c).map fun m => m.dependsOn.length).sum = p.graph.edgeCount ∧
    (p.manifests c = p.steps.map c.manifest ∧ p.steps.Nodup ∧
      (∀ i, i ∈ p.steps ↔ c.Reachable roots i) ∧
      (p.manifests c).map Manifest.name = p.steps.map c.name ∧
      ((p.manifests c).map Manifest.name).Nodup ∧ (p.manifests c).length = p.size) ∧
    ∀ before m after, p.manifests c = before ++ m :: after →
      ∀ other ∈ m.dependsOn, other ∈ before.map Manifest.name := by
  have hvalid := build_valid hplan
  have hnames : (p.manifests c).map Manifest.name = p.steps.map c.name := by
    rw [manifests, List.map_map]
    rfl
  refine ⟨?_, sum_dependsOn_eq hplan, ⟨rfl, steps_nodup hplan, fun i => mem_steps hplan,
    hnames, ?_, ?_⟩, fun before m after hsplit other => manifests_earlier hplan hsplit⟩
  · intro i hi
    have hreachable := (mem_steps hplan).mp hi
    refine ⟨Catalog.dependsOn_nodup hvalid.distinct hreachable, ?_⟩
    intro other
    simp only [Catalog.mem_dependsOn_iff hvalid.known hreachable, hvalid.mem_edges]
  · rw [hnames]
    exact names_nodup hplan
  · rw [manifests, List.length_map, size_eq_length hplan]

/-- A step that the left side holds and waits for by name is listed once. -/
theorem manifests_tell_graph_diamond :
    build diamond "diamond" [3] = .ok diamondPlan ∧
    (diamondPlan.manifests diamond).map (fun m => (m.name, m.dependsOn)) =
      [("load", []), ("left", ["load"]), ("right", ["load"]),
        ("join", ["left", "right", "load"])] ∧
    ((diamondPlan.manifests diamond).map fun m => m.dependsOn.length).sum =
      diamondPlan.graph.edgeCount :=
  ⟨build_diamond, by cbv, (manifests_tell_graph build_diamond).2.1⟩

end Plan

end WorkPlan

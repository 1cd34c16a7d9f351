import Mathlib
import WorkPlan.Plan
import WorkPlan.Proofs.Acceptance

/-!
# The layers of a plan

The depth of a step is computed in one pass over an order that respects the dependencies,
so all of them have their depth when the step is reached.  The depth is then one more than
the greatest depth below, which is the least layering there can be: any other one has to
climb by one along every edge as well.
-/

namespace WorkPlan

namespace OrderedGraph

/-! ## One more than the greatest -/

theorem above_le_iff {depths : List Nat} {bound : Nat} :
    above depths ≤ bound ↔ ∀ d ∈ depths, d < bound := by
  have hfold : ∀ (depths : List Nat) (start : Nat),
      depths.foldl (fun depth d => max depth (d + 1)) start ≤ bound ↔
        start ≤ bound ∧ ∀ d ∈ depths, d < bound := by
    intro depths
    induction depths with
    | nil => simp
    | cons d depths ih =>
        intro start
        rw [List.foldl_cons, ih, max_le_iff, List.forall_mem_cons, and_assoc,
          Nat.add_one_le_iff]
  unfold above
  rw [hfold]
  simp

theorem lt_above {depths : List Nat} {d : Nat} (hd : d ∈ depths) : d < above depths :=
  above_le_iff.mp (le_refl _) d hd

theorem exists_above_eq {depths : List Nat} (hsome : depths ≠ []) :
    ∃ d ∈ depths, above depths = d + 1 := by
  obtain ⟨first, hfirst⟩ := List.exists_mem_of_ne_nil depths hsome
  have hpos : 0 < above depths := Nat.zero_lt_of_lt (lt_above hfirst)
  have htight : ¬ above depths ≤ above depths - 1 := by omega
  rw [above_le_iff] at htight
  push Not at htight
  obtain ⟨d, hd, hle⟩ := htight
  exact ⟨d, hd, by have := lt_above hd; omega⟩

/-! ## Depths -/

variable {c : Catalog} {roots : List Nat} {g : OrderedGraph}

def measure (g : OrderedGraph) (known : List (Nat × Nat)) (i : Nat) : List (Nat × Nat) :=
  (i, above ((g.graph.dependencies i).map fun j => (known.lookup j).getD 0)) :: known

theorem depths_eq (g : OrderedGraph) : g.depths = g.order.foldl g.measure [] := rfl

theorem lookup_foldl_measure
    {order : List Nat} {i : Nat} (hother : i ∉ order) (known : List (Nat × Nat)) :
    (order.foldl g.measure known).lookup i = known.lookup i := by
  induction order generalizing known with
  | nil => rfl
  | cons first order ih =>
      rw [List.mem_cons, not_or] at hother
      rw [List.foldl_cons, ih hother.2]
      have hne : (i == first) = false := by simpa using hother.1
      simp [measure, List.lookup_cons, hne]

theorem depth_eq
    (hordered : g.graph.Ordered g.order) {i : Nat} (hi : i ∈ g.order) :
    g.depth i = above ((g.graph.dependencies i).map g.depth) := by
  obtain ⟨before, after, hsplit⟩ := List.append_of_mem hi
  let known := before.foldl g.measure []
  have hdepths : g.depths = after.foldl g.measure (g.measure known i) := by
    rw [depths_eq, hsplit, List.foldl_append, List.foldl_cons]
  have hnodup := hsplit ▸ hordered.nodup
  rw [List.nodup_append, List.nodup_cons] at hnodup
  obtain ⟨-, ⟨hafter, -⟩, hdisjoint⟩ := hnodup
  have hearlier : ∀ j ∈ before, g.depth j = (known.lookup j).getD 0 := by
    intro j hj
    have hne : (j == i) = false := by simpa using hdisjoint j hj i (by simp)
    have hlater : j ∉ after := fun hmem => hdisjoint j hj j (by simp [hmem]) rfl
    rw [depth, hdepths, lookup_foldl_measure hlater]
    simp [measure, List.lookup_cons, hne]
  have hself : g.depth i =
      above ((g.graph.dependencies i).map fun j => (known.lookup j).getD 0) := by
    rw [depth, hdepths, lookup_foldl_measure hafter]
    simp [measure]
  rw [hself]
  congr 1
  apply List.map_congr_left
  intro j hj
  exact (hearlier j (hordered.respects before i after hsplit j
    (Graph.mem_dependencies.mp hj))).symm

theorem Valid.mem_order (hvalid : g.Valid c roots) {i : Nat} :
    i ∈ g.order ↔ c.Reachable roots i := by
  rw [hvalid.ordered.mem_iff, hvalid.mem_nodes]

theorem Valid.mem_dependencies (hvalid : g.Valid c roots) {i j : Nat} :
    j ∈ g.graph.dependencies i ↔ c.Dependency roots j i := by
  rw [Graph.mem_dependencies, hvalid.mem_edges]

theorem Valid.depth_lt
    (hvalid : g.Valid c roots) {i j : Nat} (hdependency : c.Dependency roots j i) :
    g.depth j < g.depth i := by
  rw [depth_eq hvalid.ordered (hvalid.mem_order.mpr hdependency.1)]
  exact lt_above (List.mem_map_of_mem (hvalid.mem_dependencies.mpr hdependency))

/-- A step without dependencies has depth 0, any other one stands just above a deepest
dependency. -/
theorem Valid.depth_cases
    (hvalid : g.Valid c roots) {i : Nat} (hreachable : c.Reachable roots i) :
    ((∀ j, ¬ c.Dependency roots j i) ∧ g.depth i = 0) ∨
      ∃ j, c.Dependency roots j i ∧ g.depth i = g.depth j + 1 := by
  have hdepth := depth_eq hvalid.ordered (hvalid.mem_order.mpr hreachable)
  by_cases hnone : g.graph.dependencies i = []
  · refine Or.inl ⟨?_, by simp [hdepth, hnone, above]⟩
    intro j hdependency
    have hmem := hvalid.mem_dependencies.mpr hdependency
    simp [hnone] at hmem
  · have hsome : (g.graph.dependencies i).map g.depth ≠ [] := by simpa using hnone
    obtain ⟨d, hd, habove⟩ := exists_above_eq hsome
    obtain ⟨j, hj, rfl⟩ := List.mem_map.mp hd
    exact Or.inr ⟨j, hvalid.mem_dependencies.mp hj, hdepth.trans habove⟩

/-! ## Layers -/

def height (g : OrderedGraph) : Nat := above (g.order.map g.depth)

def layerAt (c : Catalog) (g : OrderedGraph) (k : Nat) : List Nat :=
  (g.order.filter fun i => g.depth i = k).mergeSort (before c)

theorem layers_eq (c : Catalog) (g : OrderedGraph) :
    g.layers c = (List.range g.height).map (g.layerAt c) := rfl

@[simp] theorem layers_length (c : Catalog) (g : OrderedGraph) :
    (g.layers c).length = g.height := by
  simp [layers_eq]

@[simp] theorem mem_layerAt {k i : Nat} :
    i ∈ g.layerAt c k ↔ i ∈ g.order ∧ g.depth i = k := by
  simp [layerAt]

theorem layerAt_nodup (hordered : g.graph.Ordered g.order) (c : Catalog) (k : Nat) :
    (g.layerAt c k).Nodup :=
  (List.mergeSort_perm _ _).nodup_iff.mpr (hordered.nodup.filter _)

theorem depth_lt_height {i : Nat} (hi : i ∈ g.order) : g.depth i < g.height :=
  lt_above (List.mem_map_of_mem hi)

theorem layers_getElem?_eq_some {k : Nat} {layer : List Nat} :
    (g.layers c)[k]? = some layer ↔ k < g.height ∧ layer = g.layerAt c k := by
  rw [layers_eq, List.getElem?_map, Option.map_eq_some_iff]
  constructor
  · rintro ⟨k', hk, rfl⟩
    obtain ⟨hlt, heq⟩ := List.getElem?_eq_some_iff.mp hk
    simp only [List.length_range, List.getElem_range] at hlt heq
    exact ⟨hlt, by rw [heq]⟩
  · rintro ⟨hlt, rfl⟩
    exact ⟨k, by simp [hlt], rfl⟩

theorem mem_layers {layer : List Nat} :
    layer ∈ g.layers c ↔ ∃ k < g.height, layer = g.layerAt c k := by
  simp only [List.mem_iff_getElem?, layers_getElem?_eq_some]

theorem mem_layers_flatten {i : Nat} : i ∈ (g.layers c).flatten ↔ i ∈ g.order := by
  rw [List.mem_flatten]
  constructor
  · rintro ⟨layer, hlayer, hi⟩
    obtain ⟨k, -, rfl⟩ := mem_layers.mp hlayer
    exact (mem_layerAt.mp hi).1
  · intro hi
    exact ⟨_, mem_layers.mpr ⟨g.depth i, depth_lt_height hi, rfl⟩, mem_layerAt.mpr ⟨hi, rfl⟩⟩

theorem layers_flatten_nodup (hordered : g.graph.Ordered g.order) (c : Catalog) :
    (g.layers c).flatten.Nodup := by
  rw [List.nodup_flatten]
  constructor
  · intro layer hlayer
    obtain ⟨k, -, rfl⟩ := mem_layers.mp hlayer
    exact layerAt_nodup hordered c k
  · rw [layers_eq, List.pairwise_map]
    refine List.nodup_range.imp ?_
    intro k m hne i hi hi'
    exact hne ((mem_layerAt.mp hi).2.symm.trans (mem_layerAt.mp hi').2)

theorem mem_flatten_before
    {before after : List (List Nat)} {steps : List Nat}
    (hsplit : g.layers c = before ++ steps :: after) {j : Nat} :
    j ∈ before.flatten ↔ j ∈ g.order ∧ g.depth j < before.length := by
  have hheight : before.length < g.height := by
    have hlength := congrArg List.length hsplit
    simp at hlength
    omega
  have hbefore : before = (List.range before.length).map (g.layerAt c) := by
    have htake := congrArg (List.take before.length) hsplit
    rw [List.take_left, layers_eq, ← List.map_take, List.take_range,
      Nat.min_eq_left hheight.le] at htake
    exact htake.symm
  rw [hbefore, List.mem_flatten, List.length_map, List.length_range]
  constructor
  · rintro ⟨layer, hlayer, hj⟩
    obtain ⟨k, hk, rfl⟩ := List.mem_map.mp hlayer
    obtain ⟨hin, hdepth⟩ := mem_layerAt.mp hj
    exact ⟨hin, hdepth ▸ List.mem_range.mp hk⟩
  · rintro ⟨hin, hlt⟩
    exact ⟨g.layerAt c (g.depth j), List.mem_map_of_mem (List.mem_range.mpr hlt),
      mem_layerAt.mpr ⟨hin, rfl⟩⟩

/-- Below a depth that is taken every depth is. -/
theorem Valid.exists_depth
    (hvalid : g.Valid c roots) {i k : Nat} (hreachable : c.Reachable roots i)
    (hk : k ≤ g.depth i) :
    ∃ j, c.Reachable roots j ∧ g.depth j = k := by
  induction hdepth : g.depth i generalizing i with
  | zero => exact ⟨i, hreachable, by omega⟩
  | succ d ih =>
      by_cases htop : k = d + 1
      · exact ⟨i, hreachable, by omega⟩
      · rcases hvalid.depth_cases hreachable with ⟨-, hzero⟩ | ⟨j, hdependency, hnext⟩
        · omega
        · exact ih hdependency.reachable (by omega) (by omega)

theorem Valid.layerAt_ne_nil
    (hvalid : g.Valid c roots) {k : Nat} (hk : k < g.height) :
    g.layerAt c k ≠ [] := by
  have hsome : ¬ g.height ≤ k := by omega
  unfold height at hsome
  rw [above_le_iff] at hsome
  push Not at hsome
  obtain ⟨d, hd, hle⟩ := hsome
  obtain ⟨i, hi, rfl⟩ := List.mem_map.mp hd
  obtain ⟨j, hj, hdepth⟩ := hvalid.exists_depth (hvalid.mem_order.mp hi) hle
  exact List.ne_nil_of_mem (mem_layerAt.mpr ⟨hvalid.mem_order.mpr hj, hdepth⟩)

theorem before_iff {i j : Nat} :
    before c i j = true ↔ c.name i < c.name j ∨ (c.name i = c.name j ∧ i ≤ j) := by
  simp [before]

/-- Names tell the steps of a layer apart, so the order of their numbers never counts. -/
theorem Valid.layerAt_sorted (hvalid : g.Valid c roots) (k : Nat) :
    (g.layerAt c k).Pairwise fun i j => c.name i < c.name j := by
  have hsorted : (g.layerAt c k).Pairwise fun i j => before c i j = true := by
    apply List.pairwise_mergeSort
    · intro i j l hij hjl
      rw [before_iff] at hij hjl ⊢
      rcases hij with hij | ⟨hij, hle⟩
      · rcases hjl with hjl | ⟨hjl, -⟩
        · exact Or.inl (hij.trans hjl)
        · exact Or.inl (hjl ▸ hij)
      · rcases hjl with hjl | ⟨hjl, hle'⟩
        · exact Or.inl (hij ▸ hjl)
        · exact Or.inr ⟨hij.trans hjl, hle.trans hle'⟩
    · intro i j
      rw [Bool.or_eq_true, before_iff, before_iff]
      rcases lt_trichotomy (c.name i) (c.name j) with hlt | heq | hlt
      · exact Or.inl (Or.inl hlt)
      · exact (le_total i j).imp (fun hle => Or.inr ⟨heq, hle⟩) fun hle => Or.inr ⟨heq.symm, hle⟩
      · exact Or.inr (Or.inl hlt)
  have hnodup := layerAt_nodup hvalid.ordered c k
  refine (hsorted.and hnodup).imp_of_mem ?_
  rintro i j hi hj ⟨hbefore, hne⟩
  rcases before_iff.mp hbefore with hlt | ⟨heq, -⟩
  · exact hlt
  · have hsame := hvalid.distinct i j (hvalid.mem_order.mp (mem_layerAt.mp hi).1)
      (hvalid.mem_order.mp (mem_layerAt.mp hj).1) heq
    exact absurd hsame hne

theorem Valid.depth_le_rank
    (hvalid : g.Valid c roots) {rank : Nat → Nat}
    (hrank : ∀ j i, c.Dependency roots j i → rank j < rank i)
    {i : Nat} (hreachable : c.Reachable roots i) :
    g.depth i ≤ rank i := by
  induction hdepth : g.depth i generalizing i with
  | zero => exact Nat.zero_le _
  | succ d ih =>
      rcases hvalid.depth_cases hreachable with ⟨-, hzero⟩ | ⟨j, hdependency, hnext⟩
      · omega
      · have hbelow := ih hdependency.reachable (by omega)
        have hclimb := hrank j i hdependency
        omega

theorem Valid.depth_lt_of_path
    (hvalid : g.Valid c roots) {i j : Nat}
    (hpath : Relation.TransGen (c.Dependency roots) j i) :
    g.depth j < g.depth i := by
  induction hpath with
  | single hdependency => exact hvalid.depth_lt hdependency
  | tail _ hdependency ih => exact ih.trans (hvalid.depth_lt hdependency)

end OrderedGraph

namespace Plan

/-- The index of the first layer that holds the step. -/
def layerOf (p : Plan) (i : Nat) : Nat := p.layers.findIdx (i ∈ ·)

variable {c : Catalog} {name : String} {roots : List Nat} {p : Plan}

theorem build_valid (hplan : build c name roots = .ok p) : p.graph.Valid c roots :=
  OrderedGraph.build_valid (build_eq_ok hplan).1

theorem layers_length (hplan : build c name roots = .ok p) :
    p.layers.length = p.graph.height := by
  rw [(build_eq_ok hplan).2, OrderedGraph.layers_length]

theorem layerOf_eq_depth
    (hplan : build c name roots = .ok p) {i : Nat} (hreachable : c.Reachable roots i) :
    p.layerOf i = p.graph.depth i := by
  have hi : i ∈ p.graph.order := (build_valid hplan).mem_order.mpr hreachable
  have hlayer : ∀ k (hk : k < p.layers.length), p.layers[k] = p.graph.layerAt c k := by
    intro k hk
    simp [(build_eq_ok hplan).2, OrderedGraph.layers_eq]
  have hlt : p.graph.depth i < p.layers.length := by
    rw [layers_length hplan]
    exact OrderedGraph.depth_lt_height hi
  unfold layerOf
  rw [List.findIdx_eq hlt]
  constructor
  · simp [hlayer, hi]
  · intro k hk
    simp only [hlayer, OrderedGraph.mem_layerAt, hi, true_and, decide_eq_false_iff_not]
    omega

theorem mem_steps (hplan : build c name roots = .ok p) {i : Nat} :
    i ∈ p.steps ↔ c.Reachable roots i := by
  unfold steps
  rw [(build_eq_ok hplan).2, OrderedGraph.mem_layers_flatten, (build_valid hplan).mem_order]

theorem mem_layers (hplan : build c name roots = .ok p) {layer : List Nat} :
    layer ∈ p.layers ↔ ∃ k < p.graph.height, layer = p.graph.layerAt c k := by
  rw [(build_eq_ok hplan).2, OrderedGraph.mem_layers]

theorem layers_ne_nil
    (hplan : build c name roots = .ok p) {layer : List Nat} (hlayer : layer ∈ p.layers) :
    layer ≠ [] := by
  obtain ⟨k, hk, rfl⟩ := (mem_layers hplan).mp hlayer
  exact (build_valid hplan).layerAt_ne_nil hk

theorem steps_nodup (hplan : build c name roots = .ok p) : p.layers.flatten.Nodup := by
  rw [(build_eq_ok hplan).2]
  exact OrderedGraph.layers_flatten_nodup (build_valid hplan).ordered c

theorem layerOf_lt_length
    (hplan : build c name roots = .ok p) {i : Nat} (hreachable : c.Reachable roots i) :
    p.layerOf i < p.layers.length := by
  rw [layerOf_eq_depth hplan hreachable, layers_length hplan]
  exact OrderedGraph.depth_lt_height ((build_valid hplan).mem_order.mpr hreachable)

theorem mem_layer_iff
    (hplan : build c name roots = .ok p) {i : Nat} (hreachable : c.Reachable roots i)
    {k : Nat} {layer : List Nat} (hlayer : p.layers[k]? = some layer) :
    i ∈ layer ↔ k = p.layerOf i := by
  have hin := (build_valid hplan).mem_order.mpr hreachable
  rw [(build_eq_ok hplan).2, OrderedGraph.layers_getElem?_eq_some] at hlayer
  obtain ⟨-, rfl⟩ := hlayer
  rw [layerOf_eq_depth hplan hreachable, OrderedGraph.mem_layerAt]
  exact ⟨fun h => h.2.symm, fun h => ⟨hin, h.symm⟩⟩

theorem exists_layer
    (hplan : build c name roots = .ok p) {i : Nat} (hreachable : c.Reachable roots i) :
    ∃ layer, p.layers[p.layerOf i]? = some layer ∧ i ∈ layer := by
  have hlayer := List.getElem?_eq_getElem (layerOf_lt_length hplan hreachable)
  exact ⟨_, hlayer, (mem_layer_iff hplan hreachable hlayer).mpr rfl⟩

theorem layerOf_lt_of_dependency
    (hplan : build c name roots = .ok p) {i j : Nat} (hdependency : c.Dependency roots j i) :
    p.layerOf j < p.layerOf i := by
  rw [layerOf_eq_depth hplan hdependency.reachable, layerOf_eq_depth hplan hdependency.1]
  exact (build_valid hplan).depth_lt hdependency

theorem layerOf_of_split
    (hplan : build c name roots = .ok p) {before after : List (List Nat)} {steps : List Nat}
    (hsplit : p.layers = before ++ steps :: after) {i : Nat} (hi : i ∈ steps) :
    p.layerOf i = before.length := by
  have hlayer : p.layers[before.length]? = some steps := by simp [hsplit]
  have hmem : i ∈ p.layers.flatten := by simp [hsplit, hi]
  have hreachable := (mem_steps hplan).mp hmem
  exact ((mem_layer_iff hplan hreachable hlayer).mp hi).symm

theorem mem_flatten_of_layerOf_lt
    (hplan : build c name roots = .ok p) {before after : List (List Nat)} {steps : List Nat}
    (hsplit : p.layers = before ++ steps :: after) {j : Nat}
    (hreachable : c.Reachable roots j) (hearlier : p.layerOf j < before.length) :
    j ∈ before.flatten := by
  rw [layerOf_eq_depth hplan hreachable] at hearlier
  rw [(build_eq_ok hplan).2] at hsplit
  have hin := (build_valid hplan).mem_order.mpr hreachable
  exact (OrderedGraph.mem_flatten_before hsplit).mpr ⟨hin, hearlier⟩

/-- The dependencies of a step stand in the layers before its own. -/
theorem mem_flatten_of_dependency
    (hplan : build c name roots = .ok p) {before after : List (List Nat)} {steps : List Nat}
    (hsplit : p.layers = before ++ steps :: after) {i j : Nat} (hi : i ∈ steps)
    (hdependency : c.Dependency roots j i) :
    j ∈ before.flatten := by
  have hlt := layerOf_lt_of_dependency hplan hdependency
  rw [layerOf_of_split hplan hsplit hi] at hlt
  exact mem_flatten_of_layerOf_lt hplan hsplit hdependency.reachable hlt

theorem names_nodup (hplan : build c name roots = .ok p) : (p.steps.map c.name).Nodup := by
  have hdistinct := (build_valid hplan).distinct
  apply List.Nodup.map_on _ (steps_nodup hplan)
  intro i hi j hj hname
  exact hdistinct i j ((mem_steps hplan).mp hi) ((mem_steps hplan).mp hj) hname

theorem layerOf_cases
    (hplan : build c name roots = .ok p) {i : Nat} (hreachable : c.Reachable roots i) :
    ((∀ j, ¬ c.Dependency roots j i) ∧ p.layerOf i = 0) ∨
      ∃ j, c.Dependency roots j i ∧ p.layerOf i = p.layerOf j + 1 ∧
        ∀ k, c.Dependency roots k i → p.layerOf k ≤ p.layerOf j := by
  have hvalid := build_valid hplan
  rw [layerOf_eq_depth hplan hreachable]
  rcases hvalid.depth_cases hreachable with hfirst | ⟨j, hj, hnext⟩
  · exact Or.inl hfirst
  · have hindex := layerOf_eq_depth hplan hj.reachable
    refine Or.inr ⟨j, hj, by rw [hindex, hnext], ?_⟩
    intro k hk
    have hbelow := hvalid.depth_lt hk
    rw [layerOf_eq_depth hplan hk.reachable, hindex]
    omega

/-- A ranking that climbs along the dependencies is nowhere lower than the layers. -/
theorem layerOf_le_rank
    (hplan : build c name roots = .ok p) {rank : Nat → Nat}
    (hrank : ∀ j i, c.Dependency roots j i → rank j < rank i) {i : Nat}
    (hreachable : c.Reachable roots i) :
    p.layerOf i ≤ rank i := by
  rw [layerOf_eq_depth hplan hreachable]
  exact (build_valid hplan).depth_le_rank hrank hreachable

theorem layers_length_le
    (hplan : build c name roots = .ok p) {rank : Nat → Nat}
    (hrank : ∀ j i, c.Dependency roots j i → rank j < rank i) {bound : Nat}
    (hbound : ∀ i, c.Reachable roots i → rank i < bound) :
    p.layers.length ≤ bound := by
  have hvalid := build_valid hplan
  rw [layers_length hplan, OrderedGraph.height, OrderedGraph.above_le_iff]
  intro d hd
  obtain ⟨i, hi, rfl⟩ := List.mem_map.mp hd
  have hreachable := hvalid.mem_order.mp hi
  exact (hvalid.depth_le_rank hrank hreachable).trans_lt (hbound i hreachable)

theorem not_path_of_mem_layer
    (hplan : build c name roots = .ok p) {layer : List Nat} (hlayer : layer ∈ p.layers)
    {i j : Nat} (hi : i ∈ layer) (hj : j ∈ layer) :
    ¬ Relation.TransGen (c.Dependency roots) j i := by
  intro hpath
  obtain ⟨k, -, rfl⟩ := (mem_layers hplan).mp hlayer
  have hlt := (build_valid hplan).depth_lt_of_path hpath
  rw [(OrderedGraph.mem_layerAt.mp hi).2, (OrderedGraph.mem_layerAt.mp hj).2] at hlt
  exact lt_irrefl _ hlt

/-- The layers are the least layering of the plan: they hold every step once, each step
just above its last dependency, none is empty or out of the order of names, and no
ranking of the steps along their dependencies is lower anywhere. -/
theorem layers_least_layering (hplan : build c name roots = .ok p) :
    p.layers.flatten.Nodup ∧
    (∀ i, i ∈ p.layers.flatten ↔ c.Reachable roots i) ∧
    (∀ layer ∈ p.layers, layer ≠ []) ∧
    (∀ i, c.Reachable roots i → p.layerOf i < p.layers.length ∧
      ∀ k layer, p.layers[k]? = some layer → (i ∈ layer ↔ k = p.layerOf i)) ∧
    (∀ i, c.Reachable roots i →
      ((∀ j, ¬ c.Dependency roots j i) ∧ p.layerOf i = 0) ∨
        ∃ j, c.Dependency roots j i ∧ p.layerOf i = p.layerOf j + 1 ∧
          ∀ k, c.Dependency roots k i → p.layerOf k ≤ p.layerOf j) ∧
    (∀ layer ∈ p.layers, layer.Pairwise fun i j => c.name i < c.name j) ∧
    (∀ rank : Nat → Nat, (∀ j i, c.Dependency roots j i → rank j < rank i) →
      (∀ i, c.Reachable roots i → p.layerOf i ≤ rank i) ∧
      ∀ bound, (∀ i, c.Reachable roots i → rank i < bound) → p.layers.length ≤ bound) ∧
    (∀ layer ∈ p.layers, ∀ i ∈ layer, ∀ j ∈ layer,
      ¬ Relation.TransGen (c.Dependency roots) j i) := by
  refine ⟨steps_nodup hplan, fun i => mem_steps hplan, fun _ => layers_ne_nil hplan,
    ?_, fun i => layerOf_cases hplan, ?_, ?_, ?_⟩
  · intro i hi
    exact ⟨layerOf_lt_length hplan hi, fun k layer => mem_layer_iff hplan hi⟩
  · intro layer hlayer
    obtain ⟨k, -, rfl⟩ := (mem_layers hplan).mp hlayer
    exact (build_valid hplan).layerAt_sorted k
  · intro rank hrank
    exact ⟨fun i => layerOf_le_rank hplan hrank, fun bound => layers_length_le hplan hrank⟩
  · intro layer hlayer i hi j hj
    exact not_path_of_mem_layer hplan hlayer hi hj

/-! ## A plan with four steps -/

/-- Two steps use the result of a first one, and a last step joins theirs. -/
def diamond : Catalog where
  steps := #[
    { name := "load", work := .const (.string "a") },
    { name := "right", slots := [.result 0, .literal (.string "-r")], work := .join },
    { name := "left", slots := [.result 0, .literal (.string "-l")],
      waits := [.named "load"], work := .join },
    { name := "join", slots := [.result 2, .result 1], waits := [.step 0], work := .join }]
  earlier := by
    intro i s hs
    obtain ⟨hi, rfl⟩ := Array.getElem?_eq_some_iff.mp hs
    clear hs
    revert i
    decide

def diamondPlan : Plan where
  name := "diamond"
  graph :=
    { graph :=
        { nodes := [3, 2, 1, 0]
          edges := [(2, 3), (1, 3), (0, 3), (0, 1), (0, 2)] }
      order := [0, 1, 2, 3] }
  layers := [[0], [2, 1], [3]]

theorem build_diamond : build diamond "diamond" [3] = .ok diamondPlan := by
  cbv

/-- No ranking of the four steps has fewer than three values. -/
theorem layers_least_layering_diamond :
    build diamond "diamond" [3] = .ok diamondPlan ∧
    ∀ rank : Nat → Nat, (∀ j i, diamond.Dependency [3] j i → rank j < rank i) →
      ∀ bound, (∀ i, diamond.Reachable [3] i → rank i < bound) → 3 ≤ bound := by
  refine ⟨build_diamond, ?_⟩
  intro rank hrank
  exact ((layers_least_layering build_diamond).2.2.2.2.2.2.1 rank hrank).2

end Plan

end WorkPlan

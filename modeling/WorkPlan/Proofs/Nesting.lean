import Mathlib.Tactic
import WorkPlan.Proofs.Layering

/-!
# Plans inside larger plans

Roots whose steps are among those of other roots give a plan inside a larger one.  A step
of the inner plan has the same dependencies in both: the inner plan knows all names that
its steps wait for, and the larger plan has no second bearer of such a name.  A depth only
counts dependencies, so the layers of the inner plan are those of the larger one without
the other steps, however the steps were found.
-/

namespace WorkPlan

namespace Catalog

variable {c : Catalog} {inner outer : List Nat}

theorem Reachable.of_roots
    (hroots : ∀ i ∈ inner, c.Reachable outer i) {i : Nat} (hi : c.Reachable inner i) :
    c.Reachable outer i := by
  induction hi with
  | root hroot => exact hroots _ hroot
  | held _ hheld ih => exact .held ih hheld

theorem dependency_iff_of_nested
    (hnested : ∀ i, c.Reachable inner i → c.Reachable outer i)
    (hdistinct : c.DistinctNames outer) (hknown : c.KnownWaits inner)
    {i j : Nat} (hi : c.Reachable inner i) :
    c.Dependency inner j i ↔ c.Dependency outer j i := by
  constructor
  · rintro ⟨-, hheld | ⟨hj, hwait⟩⟩
    · exact ⟨hnested i hi, Or.inl hheld⟩
    · exact ⟨hnested i hi, Or.inr ⟨hnested j hj, hwait⟩⟩
  · rintro ⟨-, hheld | ⟨hj, hwait⟩⟩
    · exact ⟨hi, Or.inl hheld⟩
    · obtain ⟨bearer, hbearer, hname⟩ := hknown i hi (c.name j) hwait
      have hsame : bearer = j := hdistinct bearer j (hnested bearer hbearer) hj hname
      subst bearer
      exact ⟨hi, Or.inr ⟨hbearer, hwait⟩⟩

/-- Lists in the order of names are told apart by their members. -/
theorem eq_of_names_sorted
    (c : Catalog) {first second : List Nat}
    (hfirst : first.Pairwise fun i j => c.name i < c.name j)
    (hsecond : second.Pairwise fun i j => c.name i < c.name j)
    (hmem : ∀ i, i ∈ first ↔ i ∈ second) :
    first = second := by
  have hnodup : ∀ {steps : List Nat},
      (steps.Pairwise fun i j => c.name i < c.name j) → steps.Nodup := by
    intro steps hsorted
    refine hsorted.imp ?_
    rintro i j hlt rfl
    exact lt_irrefl _ hlt
  have hperm : first.Perm second :=
    (List.perm_ext_iff_of_nodup (hnodup hfirst) (hnodup hsecond)).mpr hmem
  refine hperm.eq_of_pairwise ?_ hfirst hsecond
  intro i j _ _ hlt hgt
  exact absurd hgt (lt_asymm hlt)

end Catalog

namespace OrderedGraph

variable {c : Catalog} {inner outer : List Nat} {g h : OrderedGraph}

theorem Valid.depth_eq_of_nested
    (hinner : g.Valid c inner) (houter : h.Valid c outer)
    (hnested : ∀ i, c.Reachable inner i → c.Reachable outer i)
    {i : Nat} (hi : c.Reachable inner i) :
    g.depth i = h.depth i := by
  have hsame : ∀ {i j : Nat}, c.Reachable inner i →
      (c.Dependency inner j i ↔ c.Dependency outer j i) := fun hi =>
    Catalog.dependency_iff_of_nested hnested houter.distinct hinner.known hi
  apply le_antisymm
  · -- The depths of the larger plan climb along the dependencies of the inner one.
    apply hinner.depth_le_rank _ hi
    intro j i hdependency
    exact houter.depth_lt ((hsame hdependency.1).mp hdependency)
  · induction hdepth : h.depth i generalizing i with
    | zero => exact Nat.zero_le _
    | succ d ih =>
        rcases houter.depth_cases (hnested i hi) with ⟨-, hzero⟩ | ⟨j, hdependency, hnext⟩
        · omega
        · have hheld := (hsame hi).mpr hdependency
          have hbelow := ih hheld.reachable (by omega)
          have hclimb := hinner.depth_lt hheld
          omega

end OrderedGraph

namespace Plan

variable {c : Catalog} {name other : String} {inner outer : List Nat} {p q : Plan}

theorem build_name (hplan : build c name inner = .ok p) : p.name = name := by
  rw [build_eq] at hplan
  cases hgraph : OrderedGraph.build c inner with
  | error e => simp [hgraph, Except.map] at hplan
  | ok graph =>
      rw [hgraph] at hplan
      cases hplan
      rfl

theorem layers_getD (hplan : build c name inner = .ok p) (k : Nat) :
    p.layers.getD k [] = p.graph.layerAt c k := by
  rw [(build_eq_ok hplan).2]
  by_cases hk : k < p.graph.height
  · simp [OrderedGraph.layers_eq, List.getD_eq_getElem?_getD, hk]
  · have hempty : p.graph.layerAt c k = [] := by
      apply List.eq_nil_iff_forall_not_mem.mpr
      intro i hi
      obtain ⟨hin, rfl⟩ := OrderedGraph.mem_layerAt.mp hi
      exact hk (OrderedGraph.depth_lt_height hin)
    simp [OrderedGraph.layers_eq, List.getD_eq_getElem?_getD, hk, hempty]

theorem mem_layers_getD (hplan : build c name inner = .ok p) {i k : Nat} :
    i ∈ p.layers.getD k [] ↔ c.Reachable inner i ∧ p.graph.depth i = k := by
  rw [layers_getD hplan, OrderedGraph.mem_layerAt, (build_valid hplan).mem_order]

theorem layers_getD_sorted (hplan : build c name inner = .ok p) (k : Nat) :
    (p.layers.getD k []).Pairwise fun i j => c.name i < c.name j := by
  rw [layers_getD hplan]
  exact (build_valid hplan).layerAt_sorted k

theorem layers_eq_of_getD_eq
    (hp : build c name inner = .ok p) (hq : build c other outer = .ok q)
    (hsame : ∀ k, p.layers.getD k [] = q.layers.getD k []) :
    p.layers = q.layers := by
  -- No layer is empty, so an empty one tells of the end of the plan.
  have hsome : ∀ {layers : List (List Nat)}, (∀ layer ∈ layers, layer ≠ []) →
      ∀ k, layers[k]? = if layers.getD k [] = [] then none else some (layers.getD k []) := by
    intro layers hlayers k
    rw [List.getD_eq_getElem?_getD]
    cases hk : layers[k]? with
    | none => simp
    | some layer => simp [hlayers layer (List.mem_of_getElem? hk)]
  apply List.ext_getElem?
  intro k
  rw [hsome (fun _ => layers_ne_nil hp) k, hsome (fun _ => layers_ne_nil hq) k, hsame k]

theorem layerOf_eq_of_nested
    (hp : build c name inner = .ok p) (hq : build c other outer = .ok q)
    (hnested : ∀ i, c.Reachable inner i → c.Reachable outer i)
    {i : Nat} (hi : c.Reachable inner i) :
    p.layerOf i = q.layerOf i := by
  rw [layerOf_eq_depth hp hi, layerOf_eq_depth hq (hnested i hi)]
  exact (build_valid hp).depth_eq_of_nested (build_valid hq) hnested hi

theorem layers_getD_filter
    (hp : build c name inner = .ok p) (hq : build c other outer = .ok q)
    (hnested : ∀ i, c.Reachable inner i → c.Reachable outer i)
    [DecidablePred (c.Reachable inner)] (k : Nat) :
    p.layers.getD k [] = (q.layers.getD k []).filter (c.Reachable inner ·) := by
  apply c.eq_of_names_sorted (layers_getD_sorted hp k) ((layers_getD_sorted hq k).filter _)
  intro i
  rw [List.mem_filter, mem_layers_getD hp, mem_layers_getD hq, decide_eq_true_eq]
  by_cases hi : c.Reachable inner i
  · have hdepth := (build_valid hp).depth_eq_of_nested (build_valid hq) hnested hi
    simp [hi, hnested i hi, hdepth]
  · simp [hi]

/-- A plan inside a larger one has the layers of the larger one without its other steps.
Roots with the same steps give plans that cannot be told apart but by their names. -/
theorem layers_nested
    (hp : build c name inner = .ok p) (hq : build c other outer = .ok q)
    (hnested : ∀ i, c.Reachable inner i → c.Reachable outer i) :
    (∀ i, c.Reachable inner i → p.layerOf i = q.layerOf i) ∧
    (∀ [DecidablePred (c.Reachable inner)] (k : Nat),
      p.layers.getD k [] = (q.layers.getD k []).filter (c.Reachable inner ·)) ∧
    ((∀ i, c.Reachable outer i → c.Reachable inner i) →
      p.layers = q.layers ∧ p.manifests c = q.manifests c ∧
      (∀ (σ : Type) (crew : Crew σ) (state : σ),
        (p.run c crew state).result = (q.run c crew state).result) ∧
      (name = other →
        (∀ rule settings, p.compileWith c rule settings = q.compileWith c rule settings) ∧
        ∀ (σ : Type) (crew : Crew σ) (state : σ), p.run c crew state = q.run c crew state)) := by
  refine ⟨fun i => layerOf_eq_of_nested hp hq hnested, ?_, ?_⟩
  · intro _ k
    exact layers_getD_filter hp hq hnested k
  · intro hall
    have hlayers : p.layers = q.layers := by
      classical
      apply layers_eq_of_getD_eq hp hq
      intro k
      rw [layers_getD_filter hp hq hnested k, List.filter_eq_self]
      intro i hi
      exact decide_eq_true (hall i ((mem_layers_getD hq).mp hi).1)
    refine ⟨hlayers, ?_, ?_, ?_⟩
    · unfold manifests steps
      rw [hlayers]
    · intro σ crew state
      unfold run
      rw [hlayers]
      rfl
    · rintro rfl
      have hname : p.name = q.name := by
        rw [build_name hp, build_name hq]
      constructor
      · intro rule settings
        unfold compileWith
        rw [hlayers, hname]
      · intro σ crew state
        unfold run
        rw [hlayers, hname]

/-- The right side of the diamond with the step that it uses. -/
def sidePlan : Plan where
  name := "side"
  graph := { graph := { nodes := [1, 0], edges := [(0, 1)] }, order := [0, 1] }
  layers := [[0], [1]]

theorem build_side : build diamond "side" [1] = .ok sidePlan := by
  cbv

/-- The right side keeps its place when the rest of the diamond is there, and the diamond
is the same when more of its steps are roots. -/
theorem layers_nested_diamond :
    build diamond "side" [1] = .ok sidePlan ∧ build diamond "diamond" [3] = .ok diamondPlan ∧
    (∀ i, diamond.Reachable [1] i → diamond.Reachable [3] i) ∧
    (∀ i, diamond.Reachable [1] i → sidePlan.layerOf i = diamondPlan.layerOf i) ∧
    ∀ p, build diamond "diamond" [0, 3, 2, 3] = .ok p → p.layers = diamondPlan.layers := by
  have hlast : diamond.Reachable [3] 3 := .root (by simp)
  have hright : diamond.Reachable [3] 1 := .held hlast (by decide)
  have hnested : ∀ i, diamond.Reachable [1] i → diamond.Reachable [3] i := by
    intro i
    apply Catalog.Reachable.of_roots
    simpa using hright
  refine ⟨build_side, build_diamond, hnested, ?_, ?_⟩
  · exact (layers_nested build_side build_diamond hnested).1
  · intro p hp
    have hall : ∀ i, diamond.Reachable [3] i → diamond.Reachable [0, 3, 2, 3] i := by
      intro i
      apply Catalog.Reachable.of_roots
      intro j hj
      exact .root (by simp [List.mem_singleton.mp hj])
    have hback : ∀ i, diamond.Reachable [0, 3, 2, 3] i → diamond.Reachable [3] i := by
      intro i
      apply Catalog.Reachable.of_roots
      have hload : diamond.Reachable [3] 0 := .held hlast (by decide)
      have hleft : diamond.Reachable [3] 2 := .held hlast (by decide)
      simp [hlast, hload, hleft]
    exact ((layers_nested hp build_diamond hback).2.2 hall).1

end Plan

end WorkPlan

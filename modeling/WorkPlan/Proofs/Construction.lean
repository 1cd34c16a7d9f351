import Mathlib.Tactic
import WorkPlan.Proofs.Cycles

/-!
# Catalogs made one step after the other

The steps of a catalog are built in turn, each from the additions to its own draft.  An
addition hands over steps that are there already, so what a step holds was built before
it, and a chain of held steps never comes back to its start.  A cycle can only be closed
by a step that waits for another by name, and does not hold it.
-/

namespace WorkPlan

/-- What is given to build one step. -/
structure Making where
  additions : List Addition
  unique : String
  work : Work

/-- The steps that an addition hands over. -/
def Addition.handed : Addition → List Nat
  | .result i | .after i => [i]
  | .slots more => more.filterMap Slot.step?
  | _ => []

namespace Making

def step (m : Making) : Step := (Draft.ofAdditions m.additions).build m.unique m.work

def handed (m : Making) : List Nat := m.additions.flatMap Addition.handed

/-- Whatever is handed over to build a step was built before. -/
def EachEarlier (makings : List Making) : Prop :=
  ∀ (k : Nat) (m : Making), makings[k]? = some m → ∀ j ∈ m.handed, j < k

end Making

/-! ## Drafts -/

namespace Draft

/-- The steps that the step to be refers to. -/
def references (d : Draft) : List Nat :=
  d.slots.filterMap Slot.step? ++ d.waits.filterMap Wait.step?

theorem mem_references_add {d : Draft} {addition : Addition} {j : Nat} :
    j ∈ (d.add addition).references ↔ j ∈ d.references ∨ j ∈ addition.handed := by
  unfold add references Addition.handed
  cases addition <;>
    simp [Slot.step?_eq_some_iff, Wait.step?_eq_some_iff, or_comm, or_left_comm]

theorem mem_references_foldl {d : Draft} {additions : List Addition} {j : Nat} :
    j ∈ (additions.foldl add d).references ↔
      j ∈ d.references ∨ j ∈ additions.flatMap Addition.handed := by
  induction additions generalizing d with
  | nil => simp
  | cons addition additions ih =>
      rw [List.foldl_cons, ih, mem_references_add, List.flatMap_cons, List.mem_append, or_assoc]

end Draft

theorem Making.mem_references_step {m : Making} {j : Nat} :
    j ∈ m.step.references ↔ j ∈ m.handed := by
  have hempty : j ∉ ({} : Draft).references := by simp [Draft.references]
  exact Draft.mem_references_foldl.trans (or_iff_right hempty)

/-! ## Catalogs -/

namespace Catalog

/-- Builds the steps in turn, as long as they refer to steps that are there. -/
def make? (makings : List Making) : Option Catalog :=
  makings.foldlM (fun c m => c.push? m.step) ∅

theorem eq_of_steps_eq {c c' : Catalog} (hsteps : c.steps = c'.steps) : c = c' := by
  cases c
  cases c'
  cases hsteps
  rfl

theorem push?_eq_some_iff {c c' : Catalog} {s : Step} :
    c.push? s = some c' ↔ (∀ j ∈ s.references, j < c.size) ∧ c'.steps = c.steps.push s := by
  unfold push?
  split
  next hthere =>
    constructor
    · intro hpushed
      cases hpushed
      exact ⟨hthere, rfl⟩
    · rintro ⟨-, hsteps⟩
      exact congrArg some (eq_of_steps_eq hsteps.symm)
  next hmissing =>
    constructor
    · exact nofun
    · rintro ⟨hthere, -⟩
      exact absurd hthere hmissing

theorem foldlM_push?_eq_some_iff {makings : List Making} {c c' : Catalog} :
    makings.foldlM (fun c m => c.push? m.step) c = some c' ↔
      (∀ k m, makings[k]? = some m → ∀ j ∈ m.handed, j < c.size + k) ∧
        c'.steps.toList = c.steps.toList ++ makings.map Making.step := by
  induction makings generalizing c with
  | nil =>
      simp only [List.foldlM_nil, List.getElem?_nil, List.map_nil, List.append_nil]
      constructor
      · intro hsame
        cases hsame
        simp
      · rintro ⟨-, hsteps⟩
        exact congrArg some (eq_of_steps_eq (Array.toList_inj.mp hsteps).symm)
  | cons first makings ih =>
      rw [List.foldlM_cons, Option.bind_eq_bind, Option.bind_eq_some_iff]
      constructor
      · rintro ⟨pushed, hpushed, hrest⟩
        obtain ⟨hthere, hsteps⟩ := push?_eq_some_iff.mp hpushed
        obtain ⟨hearlier, hlast⟩ := ih.mp hrest
        have hsize : pushed.size = c.size + 1 := by simp [size, hsteps]
        constructor
        · intro k m hm j hj
          cases k with
          | zero =>
              cases hm
              exact hthere j (Making.mem_references_step.mpr hj)
          | succ k =>
              have hlt := hearlier k m hm j hj
              omega
        · rw [hlast, hsteps]
          simp
      · rintro ⟨hearlier, hlast⟩
        have hthere : ∀ j ∈ first.step.references, j < c.size := fun j hj =>
          hearlier 0 first rfl j (Making.mem_references_step.mp hj)
        obtain ⟨pushed, hpushed⟩ : ∃ pushed, c.push? first.step = some pushed :=
          ⟨_, dif_pos hthere⟩
        have hsteps := (push?_eq_some_iff.mp hpushed).2
        have hsize : pushed.size = c.size + 1 := by simp [size, hsteps]
        refine ⟨pushed, hpushed, ih.mpr ⟨?_, ?_⟩⟩
        · intro k m hm j hj
          have hlt := hearlier (k + 1) m hm j hj
          omega
        · rw [hlast, hsteps]
          simp

/-- The additions decide whether a catalog can be made, and the steps are what they make. -/
theorem make?_eq_some_iff {makings : List Making} {c : Catalog} :
    make? makings = some c ↔
      Making.EachEarlier makings ∧ c.steps.toList = makings.map Making.step := by
  have hsize : (∅ : Catalog).size = 0 := rfl
  have hnone : (∅ : Catalog).steps.toList = [] := rfl
  rw [make?, foldlM_push?_eq_some_iff]
  simp only [hsize, hnone, Nat.zero_add, List.nil_append, Making.EachEarlier]

theorem exists_make?
    {makings : List Making} (hearlier : Making.EachEarlier makings) :
    ∃ c, make? makings = some c := by
  let c : Catalog :=
    { steps := (makings.map Making.step).toArray
      earlier := by
        intro k s hs j hj
        obtain ⟨m, hm, rfl⟩ : ∃ m, makings[k]? = some m ∧ m.step = s := by
          simpa using hs
        exact hearlier k m hm j (Making.mem_references_step.mp hj) }
  exact ⟨c, make?_eq_some_iff.mpr ⟨hearlier, rfl⟩⟩

/-! ## Chains of dependencies -/

/-- The dependent waits for the dependency by name, and does not hold it. -/
def ByNameOnly (c : Catalog) (roots : List Nat) (j i : Nat) : Prop :=
  c.Reachable roots i ∧ c.Reachable roots j ∧ c.name j ∈ (c.step i).namedWaits ∧
    j ∉ c.handles i

variable {c : Catalog} {roots : List Nat}

theorem Dependency.lt_or_byNameOnly
    {i j : Nat} (hdependency : c.Dependency roots j i) : j < i ∨ c.ByNameOnly roots j i := by
  obtain ⟨hi, hheld | ⟨hj, hwait⟩⟩ := hdependency
  · exact Or.inl (c.handle_lt hheld)
  · by_cases hheld : j ∈ c.handles i
    · exact Or.inl (c.handle_lt hheld)
    · exact Or.inr ⟨hi, hj, hwait, hheld⟩

/-- The numbers rise along a chain, except where a step waits by name. -/
theorem isChain_lt_or_exists_byNameOnly
    {steps : List Nat} (hchain : steps.IsChain (c.Dependency roots)) :
    steps.IsChain (· < ·) ∨
      ∃ before j i after, steps = before ++ j :: i :: after ∧ c.ByNameOnly roots j i := by
  induction hchain with
  | nil => exact Or.inl .nil
  | singleton i => exact Or.inl (.singleton i)
  | @cons_cons j i rest hdependency _ ih =>
      rcases hdependency.lt_or_byNameOnly with hlt | hnamed
      · rcases ih with hrising | ⟨before, k, l, after, hsplit, hnamed⟩
        · exact Or.inl (.cons_cons hlt hrising)
        · exact Or.inr ⟨j :: before, k, l, after, by rw [hsplit, List.cons_append], hnamed⟩
      · exact Or.inr ⟨[], j, i, rest, rfl, hnamed⟩

theorem exists_byNameOnly_of_cycle
    {i : Nat} {path : List Nat}
    (hcycle : (i :: path ++ [i]).IsChain (c.Dependency roots)) :
    ∃ before j k after, i :: path ++ [i] = before ++ j :: k :: after ∧
      c.ByNameOnly roots j k := by
  rcases isChain_lt_or_exists_byNameOnly hcycle with hrising | hnamed
  · have hlater : i < i := (List.pairwise_cons.mp hrising.pairwise).1 i (by simp)
    exact absurd hlater (lt_irrefl i)
  · exact hnamed

theorem exists_chain_of_transGen
    {relation : Nat → Nat → Prop} {i k : Nat} (hpath : Relation.TransGen relation i k) :
    ∃ path, (i :: path ++ [k]).IsChain relation := by
  induction hpath using Relation.TransGen.head_induction_on with
  | single hedge => exact ⟨[], .cons_cons hedge (.singleton k)⟩
  | @head i j hedge _ ih =>
      obtain ⟨path, hchain⟩ := ih
      exact ⟨j :: path, .cons_cons hedge hchain⟩

theorem noCycle_of_unnamed
    (hunnamed : ∀ i, c.Reachable roots i → (c.step i).namedWaits = []) :
    c.NoCycle roots := by
  intro i hcycle
  obtain ⟨path, hchain⟩ := exists_chain_of_transGen hcycle
  obtain ⟨_, _, k, _, -, hk, -, hwait, -⟩ := exists_byNameOnly_of_cycle hchain
  rw [hunnamed k hk] at hwait
  cases hwait

theorem knownWaits_of_unnamed
    (hunnamed : ∀ i, c.Reachable roots i → (c.step i).namedWaits = []) :
    c.KnownWaits roots := by
  intro i hi name hwait
  rw [hunnamed i hi] at hwait
  cases hwait

theorem acceptable_iff_of_unnamed
    (hunnamed : ∀ i, c.Reachable roots i → (c.step i).namedWaits = []) :
    c.Acceptable roots ↔ c.DistinctNames roots :=
  ⟨fun haccept => haccept.distinct, fun hdistinct =>
    ⟨hdistinct, knownWaits_of_unnamed hunnamed, noCycle_of_unnamed hunnamed⟩⟩

end Catalog

/-! ## Plans without names to wait for -/

variable {c : Catalog} {roots : List Nat}

theorem OrderedGraph.eq_duplicateName_of_unnamed
    (hunnamed : ∀ i, c.Reachable roots i → (c.step i).namedWaits = []) {e : PlanError}
    (hbuild : build c roots = .error e) :
    ∃ name, e = .duplicateName name := by
  by_cases hdistinct : c.DistinctNames roots
  · have haccept := (Catalog.acceptable_iff_of_unnamed hunnamed).mpr hdistinct
    obtain ⟨g, hok⟩ := exists_build_of_acceptable haccept
    rw [hok] at hbuild
    cases hbuild
  · obtain ⟨least, -, -, hshared⟩ := build_duplicateName hdistinct
    rw [hshared] at hbuild
    cases hbuild
    exact ⟨least, rfl⟩

namespace Plan

theorem exists_build_iff_of_unnamed
    (hunnamed : ∀ i, c.Reachable roots i → (c.step i).namedWaits = []) (name : String) :
    (∃ p, build c name roots = .ok p) ↔ c.DistinctNames roots := by
  rw [← Catalog.acceptable_iff_of_unnamed hunnamed, ← OrderedGraph.exists_build_iff, build_eq]
  cases OrderedGraph.build c roots <;> simp [Except.map]

/-- However the steps of a catalog are made, as long as each is handed steps that are there
already: plans are refused for shared names only, if no step of theirs waits for another by
name.  Otherwise a plan may be refused for a cycle, but along every cycle some step waits
for the one before it by nothing but its name. -/
theorem build_of_makings {makings : List Making} (hearlier : Making.EachEarlier makings) :
    ∃ c, Catalog.make? makings = some c ∧ c.steps.toList = makings.map Making.step ∧
      ∀ roots,
        ((∀ i, c.Reachable roots i → (c.step i).namedWaits = []) →
          (∀ n, OrderedGraph.build c roots ≠ .error (.cycle n)) ∧
          (∀ step dependency,
            OrderedGraph.build c roots ≠ .error (.unknownDependency step dependency)) ∧
          ∀ name, (∃ p, build c name roots = .ok p) ↔ c.DistinctNames roots) ∧
        (∀ n, OrderedGraph.build c roots = .error (.cycle n) →
          ∃ i path, c.name i = n ∧ (i :: path ++ [i]).IsChain (c.Dependency roots)) ∧
        ∀ i path, (i :: path ++ [i]).IsChain (c.Dependency roots) →
          ∃ before j k after, i :: path ++ [i] = before ++ j :: k :: after ∧
            c.ByNameOnly roots j k := by
  obtain ⟨c, hmade⟩ := Catalog.exists_make? hearlier
  refine ⟨c, hmade, (Catalog.make?_eq_some_iff.mp hmade).2, fun roots => ⟨?_, ?_, ?_⟩⟩
  · intro hunnamed
    refine ⟨?_, ?_, exists_build_iff_of_unnamed hunnamed⟩
    · intro n hbuild
      obtain ⟨name, hname⟩ := OrderedGraph.eq_duplicateName_of_unnamed hunnamed hbuild
      cases hname
    · intro step dependency hbuild
      obtain ⟨name, hname⟩ := OrderedGraph.eq_duplicateName_of_unnamed hunnamed hbuild
      cases hname
  · intro n hbuild
    obtain ⟨graph, i, hhanded, horder, rfl⟩ := OrderedGraph.exists_handed_of_cycle hbuild
    obtain ⟨path, hchain⟩ := Catalog.exists_chain_of_transGen (hhanded.cycle horder)
    exact ⟨i, path, rfl, hchain⟩
  · intro i path hcycle
    exact Catalog.exists_byNameOnly_of_cycle hcycle

/-- What the two steps that wait for each other are made of, and the steps around them. -/
def knotMakings : List Making :=
  [⟨[.name "before"], "", .nothing⟩,
    ⟨[.result 0, .afterNamed "second", .name "first"], "", .nothing⟩,
    ⟨[.name "second", .slots [.result 1]], "", .nothing⟩,
    ⟨[.name "behind", .result 2], "", .nothing⟩]

/-- The way from the first of the two to the second and back takes an edge by name alone. -/
theorem build_of_makings_knot :
    Making.EachEarlier knotMakings ∧ Catalog.make? knotMakings = some OrderedGraph.knot ∧
      OrderedGraph.build OrderedGraph.knot [3] = .error (.cycle "first") ∧
      [1, 2, 1].IsChain (OrderedGraph.knot.Dependency [3]) ∧
      ∃ before j k after, [1, 2, 1] = before ++ j :: k :: after ∧
        OrderedGraph.knot.ByNameOnly [3] j k := by
  have hearlier : Making.EachEarlier knotMakings := by
    intro k m hm
    obtain ⟨hk, rfl⟩ := List.getElem?_eq_some_iff.mp hm
    clear hm
    revert k
    decide
  obtain ⟨c, hmade, hsteps, hplans⟩ := build_of_makings hearlier
  obtain rfl : c = OrderedGraph.knot := Catalog.eq_of_steps_eq (Array.toList_inj.mp hsteps)
  have hbehind : OrderedGraph.knot.Reachable [3] 3 := .root (by decide)
  have hsecond : OrderedGraph.knot.Reachable [3] 2 := .held hbehind (by decide)
  have hfirst : OrderedGraph.knot.Reachable [3] 1 := .held hsecond (by decide)
  have hheld : OrderedGraph.knot.Dependency [3] 1 2 := ⟨hsecond, Or.inl (by decide)⟩
  have hnamed : OrderedGraph.knot.Dependency [3] 2 1 :=
    ⟨hfirst, Or.inr ⟨hsecond, by decide⟩⟩
  have hcycle : [1, 2, 1].IsChain (OrderedGraph.knot.Dependency [3]) :=
    .cons_cons hheld (.cons_cons hnamed (.singleton 1))
  exact ⟨hearlier, hmade, by cbv, hcycle, (hplans [3]).2.2 1 [2] hcycle⟩

end Plan

end WorkPlan

import Mathlib.Data.Prod.Lex
import Mathlib.Tactic
import WorkPlan.Proofs.Mirroring

/-!
# Targets decide what is compiled

Targets are looked for layer by layer and in the order of each layer, and the first step
without one ends the compilation with what the rule says of it.  A rule counts only through
the targets that it gives to the steps at hand: rules that agree on these are told apart by
nothing but their refusals, and a rule that gives more targets never comes to an end
earlier.  A refusal names the step as long as the rule names what it is asked for.
-/

namespace WorkPlan

/-! ## Places in layers -/

/-- The index of a layer and an index in it, in the order in which steps are looked at. -/
abbrev Place := Nat ×ₗ Nat

def stepAt? (layers : List (List Nat)) (place : Place) : Option Nat :=
  layers[(ofLex place).1]?.bind fun layer => layer[(ofLex place).2]?

section Places

variable {layers before after : List (List Nat)} {first rest : List Nat} {place : Place}
  {i j : Nat}

theorem exists_mem_of_stepAt? (hplace : stepAt? layers place = some i) :
    ∃ layer ∈ layers, i ∈ layer := by
  obtain ⟨layer, hlayer, hi⟩ := Option.bind_eq_some_iff.mp hplace
  exact ⟨layer, List.mem_of_getElem? hlayer, List.mem_of_getElem? hi⟩

theorem stepAt?_of_split :
    stepAt? (before ++ (first ++ i :: rest) :: after)
      (toLex (before.length, first.length)) = some i := by
  simp [stepAt?]

/-- A step before a cut is in an earlier layer, or earlier in the layer that is cut. -/
theorem mem_of_stepAt?_of_lt
    (hplace : stepAt? (before ++ (first ++ i :: rest) :: after) place = some j)
    (hlt : place < toLex (before.length, first.length)) :
    (∃ layer ∈ before, j ∈ layer) ∨ j ∈ first := by
  obtain ⟨layer, hlayer, hj⟩ := Option.bind_eq_some_iff.mp hplace
  rcases Prod.Lex.lt_iff.mp hlt with hearlier | ⟨hsame, hearlier⟩
  · rw [List.getElem?_append_left hearlier] at hlayer
    exact Or.inl ⟨layer, List.mem_of_getElem? hlayer, List.mem_of_getElem? hj⟩
  · have hindex : (ofLex place).1 = before.length := hsame
    rw [hindex, List.getElem?_append_right le_rfl, Nat.sub_self, List.getElem?_cons_zero]
      at hlayer
    cases hlayer
    rw [List.getElem?_append_left hearlier] at hj
    exact Or.inr (List.mem_of_getElem? hj)

end Places

/-! ## Rules -/

namespace TargetRule

variable {rule rule' : TargetRule} {c : Catalog} {layers : List (List Nat)}

/-- The target that the rule gives to a step, if it gives one. -/
def target? (rule : TargetRule) (s : Step) : Option String := (rule.resolve s).toOption

theorem target?_eq_some_iff {s : Step} {target : String} :
    rule.target? s = some target ↔ rule.resolve s = .ok target := by
  unfold target?
  cases rule.resolve s <;> simp [Except.toOption]

theorem target?_eq_none_iff {s : Step} :
    rule.target? s = none ↔ ∃ e, rule.resolve s = .error e := by
  unfold target?
  cases rule.resolve s <;> simp [Except.toOption]

theorem target?_isSome_iff {s : Step} :
    (rule.target? s).isSome ↔ ∃ target, rule.resolve s = .ok target := by
  simp [Option.isSome_iff_exists, target?_eq_some_iff]

@[simp] theorem target?_registered (targets : Dictionary String) (s : Step) :
    (registered targets).target? s = targets.get? s.name := by
  simp only [target?, registered]
  cases targets.get? s.name <;> rfl

/-- Every refusal of the rule names the step that it was asked for. -/
def NamesAsked (rule : TargetRule) : Prop :=
  ∀ s e, rule.resolve s = .error e → e.step = s.name

theorem namesAsked_stepName : stepName.NamesAsked := nofun

theorem namesAsked_registered (targets : Dictionary String) :
    (registered targets).NamesAsked := by
  intro s e hrefused
  simp only [registered] at hrefused
  split at hrefused
  · cases hrefused
  · cases hrefused
    rfl

theorem namesAsked_custom (target? : Step → Option String) : (custom target?).NamesAsked := by
  intro s e hrefused
  simp only [custom] at hrefused
  split at hrefused
  · cases hrefused
  · cases hrefused
    rfl

theorem resolve_eq_of_target?
    {s : Step} {target : String} (hgiven : rule.target? s = some target)
    (hgiven' : rule'.target? s = some target) :
    rule.resolve s = rule'.resolve s := by
  rw [target?_eq_some_iff.mp hgiven, target?_eq_some_iff.mp hgiven']

/-- The step at the place has no target, and the steps at all earlier places have one. -/
structure FirstUnresolved
    (rule : TargetRule) (c : Catalog) (layers : List (List Nat)) (place : Place) (i : Nat) :
    Prop where
  at_place : stepAt? layers place = some i
  unresolved : rule.target? (c.step i) = none
  earlier : ∀ other < place, ∀ j, stepAt? layers other = some j →
    (rule.target? (c.step j)).isSome

section FirstUnresolved

variable {place place' : Place} {i i' : Nat}

/-- What a second rule does not give either is not found earlier by it. -/
theorem FirstUnresolved.le
    (hfirst : rule.FirstUnresolved c layers place i)
    (hfirst' : rule'.FirstUnresolved c layers place' i')
    (hmore : ∀ layer ∈ layers, ∀ j ∈ layer,
      (rule.target? (c.step j)).isSome → (rule'.target? (c.step j)).isSome) :
    place ≤ place' := by
  by_contra hlater
  obtain ⟨layer, hlayer, hi'⟩ := exists_mem_of_stepAt? hfirst'.at_place
  have hgiven : (rule.target? (c.step i')).isSome :=
    hfirst.earlier place' (not_le.mp hlater) i' hfirst'.at_place
  have hgiven' := hmore layer hlayer i' hi' hgiven
  rw [hfirst'.unresolved] at hgiven'
  cases hgiven'

theorem FirstUnresolved.unique
    (hfirst : rule.FirstUnresolved c layers place i)
    (hfirst' : rule.FirstUnresolved c layers place' i') :
    i = i' := by
  have hsame : place = place' :=
    le_antisymm (hfirst.le hfirst' fun _ _ _ _ => id) (hfirst'.le hfirst fun _ _ _ _ => id)
  subst place'
  exact Option.some.inj (hfirst.at_place.symm.trans hfirst'.at_place)

theorem FirstUnresolved.congr
    (hfirst : rule.FirstUnresolved c layers place i)
    (hagree : ∀ layer ∈ layers, ∀ j ∈ layer,
      rule.target? (c.step j) = rule'.target? (c.step j)) :
    rule'.FirstUnresolved c layers place i := by
  have hat : ∀ other j, stepAt? layers other = some j →
      rule.target? (c.step j) = rule'.target? (c.step j) := by
    intro other j hj
    obtain ⟨layer, hlayer, hmem⟩ := exists_mem_of_stepAt? hj
    exact hagree layer hlayer j hmem
  refine ⟨hfirst.at_place, ?_, ?_⟩
  · rw [← hat place i hfirst.at_place]
    exact hfirst.unresolved
  · intro other hlt j hj
    rw [← hat other j hj]
    exact hfirst.earlier other hlt j hj

theorem firstUnresolved_of_split
    {before after : List (List Nat)} {first rest : List Nat}
    (hbefore : ∀ layer ∈ before, ∀ j ∈ layer, (rule.target? (c.step j)).isSome)
    (hfirst : ∀ j ∈ first, (rule.target? (c.step j)).isSome)
    (hi : rule.target? (c.step i) = none) :
    rule.FirstUnresolved c (before ++ (first ++ i :: rest) :: after)
      (toLex (before.length, first.length)) i := by
  refine ⟨stepAt?_of_split, hi, ?_⟩
  intro other hlt j hj
  rcases mem_of_stepAt?_of_lt hj hlt with ⟨layer, hlayer, hmem⟩ | hmem
  · exact hbefore layer hlayer j hmem
  · exact hfirst j hmem

/-- The rule refuses the step at the place with the error, and no step before it. -/
structure Refuses
    (rule : TargetRule) (c : Catalog) (layers : List (List Nat)) (place : Place) (i : Nat)
    (e : Unresolved) : Prop where
  first : rule.FirstUnresolved c layers place i
  refused : rule.resolve (c.step i) = .error e
  named : rule.NamesAsked → e.step = c.name i

theorem FirstUnresolved.refuses
    (hfirst : rule.FirstUnresolved c layers place i) {e : Unresolved}
    (hrefused : rule.resolve (c.step i) = .error e) :
    rule.Refuses c layers place i e :=
  ⟨hfirst, hrefused, fun hnames => hnames _ _ hrefused⟩

end FirstUnresolved

end TargetRule

/-! ## Compilation -/

namespace Workflow

variable {c : Catalog} {name : String} {layers : List (List Nat)} {rule rule' : TargetRule}
  {settings : CompileSettings} {e : Unresolved} {w : Workflow}

theorem compile_error_iff_targets :
    compile c name layers rule settings = .error e ↔ targets c rule layers = .error e := by
  unfold compile
  cases targets c rule layers <;> simp [bind, Except.bind, pure, Except.pure]

theorem exists_compile_iff :
    (∃ w, compile c name layers rule settings = .ok w) ↔
      ∀ layer ∈ layers, ∀ i ∈ layer, ∃ target, rule.resolve (c.step i) = .ok target := by
  constructor
  · rintro ⟨w, hcompile⟩ layer hlayer i hi
    cases hfound : targets c rule layers with
    | error e =>
        rw [compile_error_iff_targets.mpr hfound] at hcompile
        cases hcompile
    | ok found =>
        obtain ⟨names, hnames⟩ := exists_of_mapM_eq_ok hfound hlayer
        exact exists_of_mapM_eq_ok hnames hi
  · intro hgiven
    apply exists_compile
    intro i hi
    obtain ⟨layer, hlayer, hmem⟩ := List.mem_flatten.mp hi
    exact hgiven layer hlayer i hmem

/-- A layer is passed when all of its steps have targets. -/
theorem isSome_of_layer_ok
    {layer : List Nat}
    (hlayer : ∃ names, (layer.mapM fun i => rule.resolve (c.step i)) = .ok names)
    {i : Nat} (hi : i ∈ layer) :
    (rule.target? (c.step i)).isSome := by
  obtain ⟨names, hnames⟩ := hlayer
  exact TargetRule.target?_isSome_iff.mpr (exists_of_mapM_eq_ok hnames hi)

theorem exists_refuses (hcompile : compile c name layers rule settings = .error e) :
    ∃ place i, rule.Refuses c layers place i e := by
  obtain ⟨before, layer, after, hlayers, hbefore, hlayer⟩ :=
    mapM_eq_error_iff.mp (compile_error_iff_targets.mp hcompile)
  obtain ⟨first, i, rest, hsteps, hfirst, hi⟩ := mapM_eq_error_iff.mp hlayer
  subst hlayers hsteps
  have hat : rule.FirstUnresolved c (before ++ (first ++ i :: rest) :: after)
      (toLex (before.length, first.length)) i :=
    TargetRule.firstUnresolved_of_split
      (fun layer hlayer j hj => isSome_of_layer_ok (hbefore layer hlayer) hj)
      (fun j hj => TargetRule.target?_isSome_iff.mpr (hfirst j hj))
      (TargetRule.target?_eq_none_iff.mpr ⟨e, hi⟩)
  exact ⟨_, i, hat.refuses hi⟩

theorem compile_error_iff :
    compile c name layers rule settings = .error e ↔
      ∃ place i, rule.Refuses c layers place i e := by
  refine ⟨exists_refuses, ?_⟩
  rintro ⟨place, i, hrefuses⟩
  cases hcompile : compile c name layers rule settings with
  | ok w =>
      obtain ⟨layer, hlayer, hi⟩ := exists_mem_of_stepAt? hrefuses.first.at_place
      obtain ⟨target, htarget⟩ := exists_compile_iff.mp ⟨w, hcompile⟩ layer hlayer i hi
      rw [hrefuses.refused] at htarget
      cases htarget
  | error e' =>
      obtain ⟨place', i', hrefuses'⟩ := exists_refuses hcompile
      have hrefused := hrefuses'.refused
      rw [← hrefuses.first.unique hrefuses'.first, hrefuses.refused] at hrefused
      cases hrefused
      rfl

/-- A rule that gives the same targets to the steps, and maybe others to other steps, makes
the same workflow. -/
theorem compile_ok_of_extends
    (hcompile : compile c name layers rule settings = .ok w)
    (hextends : ∀ layer ∈ layers, ∀ i ∈ layer, ∀ target,
      rule.target? (c.step i) = some target → rule'.target? (c.step i) = some target) :
    compile c name layers rule' settings = .ok w := by
  have hgiven := exists_compile_iff.mp ⟨w, hcompile⟩
  have hsame : targets c rule' layers = targets c rule layers := by
    apply mapM_congr_of_mem
    intro layer hlayer
    apply mapM_congr_of_mem
    intro i hi
    obtain ⟨target, htarget⟩ := hgiven layer hlayer i hi
    have htarget' := TargetRule.target?_eq_some_iff.mpr htarget
    exact TargetRule.resolve_eq_of_target? (hextends layer hlayer i hi target htarget') htarget'
  unfold compile at hcompile ⊢
  rw [hsame]
  exact hcompile

theorem compile_agrees
    (hagree : ∀ layer ∈ layers, ∀ i ∈ layer,
      rule.target? (c.step i) = rule'.target? (c.step i))
    (name : String) (settings : CompileSettings) :
    (∃ w, compile c name layers rule settings = .ok w ∧
        compile c name layers rule' settings = .ok w) ∨
      ∃ place i e e',
        rule.Refuses c layers place i e ∧ compile c name layers rule settings = .error e ∧
        rule'.Refuses c layers place i e' ∧
        compile c name layers rule' settings = .error e' := by
  cases hcompile : compile c name layers rule settings with
  | ok w =>
      refine Or.inl ⟨w, rfl, compile_ok_of_extends hcompile ?_⟩
      intro layer hlayer i hi target htarget
      rw [← hagree layer hlayer i hi]
      exact htarget
  | error e =>
      obtain ⟨place, i, hrefuses⟩ := exists_refuses hcompile
      have hfirst' := hrefuses.first.congr hagree
      obtain ⟨e', hrefused'⟩ := TargetRule.target?_eq_none_iff.mp hfirst'.unresolved
      have hrefuses' := hfirst'.refuses hrefused'
      exact Or.inr ⟨place, i, e, e', hrefuses, rfl, hrefuses',
        compile_error_iff.mpr ⟨place, i, hrefuses'⟩⟩

theorem compile_extended
    (hextends : ∀ layer ∈ layers, ∀ i ∈ layer, ∀ target,
      rule.target? (c.step i) = some target → rule'.target? (c.step i) = some target)
    (hcompile : compile c name layers rule settings = .error e) :
    (∃ w, compile c name layers rule' settings = .ok w) ∨
      ∃ place i place' i' e', rule.FirstUnresolved c layers place i ∧
        rule'.Refuses c layers place' i' e' ∧ place ≤ place' ∧
        compile c name layers rule' settings = .error e' := by
  cases hcompile' : compile c name layers rule' settings with
  | ok w => exact Or.inl ⟨w, rfl⟩
  | error e' =>
      obtain ⟨place, i, hrefuses⟩ := exists_refuses hcompile
      obtain ⟨place', i', hrefuses'⟩ := exists_refuses hcompile'
      refine Or.inr ⟨place, i, place', i', e', hrefuses.first, hrefuses', ?_, rfl⟩
      apply hrefuses.first.le hrefuses'.first
      intro layer hlayer j hj hgiven
      obtain ⟨target, htarget⟩ := Option.isSome_iff_exists.mp hgiven
      exact Option.isSome_iff_exists.mpr ⟨target, hextends layer hlayer j hj target htarget⟩

/-- Layers, of a plan or not, are compiled exactly when the rule has a target for every
step.  Otherwise the error is what the rule says of the first step without one, in the order
of the layers and then in that of the layer; it names that step if the rule names what it is
asked for, as the rules of the library do.  Rules that agree on the steps make the same
workflow or are refused at the same step.  More names in a table of targets change no
workflow, and a refusal stays, comes later or goes away. -/
theorem compile_decided_by_targets
    (c : Catalog) (name : String) (layers : List (List Nat)) (settings : CompileSettings) :
    (∀ rule, (∃ w, compile c name layers rule settings = .ok w) ↔
      ∀ layer ∈ layers, ∀ i ∈ layer, ∃ target, rule.resolve (c.step i) = .ok target) ∧
    (∀ rule e, compile c name layers rule settings = .error e ↔
      ∃ place i, rule.Refuses c layers place i e) ∧
    (TargetRule.stepName.NamesAsked ∧ (∀ targets, (TargetRule.registered targets).NamesAsked) ∧
      ∀ target?, (TargetRule.custom target?).NamesAsked) ∧
    (∀ rule rule' : TargetRule,
      (∀ layer ∈ layers, ∀ i ∈ layer,
        rule.target? (c.step i) = rule'.target? (c.step i)) →
      (∃ w, compile c name layers rule settings = .ok w ∧
          compile c name layers rule' settings = .ok w) ∨
        ∃ place i e e',
          rule.Refuses c layers place i e ∧ compile c name layers rule settings = .error e ∧
          rule'.Refuses c layers place i e' ∧
          compile c name layers rule' settings = .error e') ∧
    (∀ targets targets' : Dictionary String,
      (∀ key target, targets.get? key = some target → targets'.get? key = some target) →
      (∀ w, compile c name layers (.registered targets) settings = .ok w →
        compile c name layers (.registered targets') settings = .ok w) ∧
      ∀ e, compile c name layers (.registered targets) settings = .error e →
        (∃ w, compile c name layers (.registered targets') settings = .ok w) ∨
          ∃ place i place' i' e',
            (TargetRule.registered targets).FirstUnresolved c layers place i ∧
            (TargetRule.registered targets').Refuses c layers place' i' e' ∧
            place ≤ place' ∧
            compile c name layers (.registered targets') settings = .error e' ∧
            e'.step = c.name i') := by
  refine ⟨fun rule => exists_compile_iff, fun rule e => compile_error_iff,
    ⟨TargetRule.namesAsked_stepName, TargetRule.namesAsked_registered,
      TargetRule.namesAsked_custom⟩,
    fun rule rule' hagree => compile_agrees hagree name settings, ?_⟩
  intro targets targets' hmore
  have hextends : ∀ layer ∈ layers, ∀ i ∈ layer, ∀ target,
      (TargetRule.registered targets).target? (c.step i) = some target →
        (TargetRule.registered targets').target? (c.step i) = some target := by
    intro layer _ i _ target htarget
    rw [TargetRule.target?_registered] at htarget ⊢
    exact hmore _ target htarget
  refine ⟨fun w hcompile => compile_ok_of_extends hcompile hextends, fun e hcompile => ?_⟩
  rcases compile_extended hextends hcompile with
    hmade | ⟨place, i, place', i', e', hfirst, hrefuses', hle, hcompile'⟩
  · exact Or.inl hmade
  · exact Or.inr ⟨place, i, place', i', e', hfirst, hrefuses', hle, hcompile',
      hrefuses'.named (TargetRule.namesAsked_registered targets')⟩

/-- Half of the diamond is deployed. -/
def leftHalf : TargetRule := .registered (.ofEntries [("load", "load-1"), ("left", "left-1")])

/-- A rule that puts the blame for every step on the last one. -/
def blaming : TargetRule := ⟨fun _ => .error ⟨"join", "not deployed"⟩⟩

/-- Two steps of a layer have no target in a table, and the one that stands first is named.
What another rule says of the first step is passed on as it is. -/
theorem compile_decided_by_targets_leftHalf :
    (∃ place i, leftHalf.Refuses Plan.diamond [[0, 2], [], [1, 3]] place i
        ⟨"right", "no deployed target registered"⟩ ∧ Plan.diamond.name i = "right") ∧
    ¬ blaming.NamesAsked ∧
    ∃ place i, blaming.Refuses Plan.diamond [[0, 2], [], [1, 3]] place i
      ⟨"join", "not deployed"⟩ := by
  obtain ⟨-, hrefused, ⟨-, hnames, -⟩, -⟩ :=
    compile_decided_by_targets Plan.diamond "diamond" [[0, 2], [], [1, 3]] {}
  refine ⟨?_, ?_, (hrefused blaming _).mp (by cbv)⟩
  · obtain ⟨place, i, hrefuses⟩ :=
      (hrefused leftHalf ⟨"right", "no deployed target registered"⟩).mp (by cbv)
    exact ⟨place, i, hrefuses, (hrefuses.named (hnames _)).symm⟩
  · intro hblames
    have hsame := hblames (Plan.diamond.step 0) _ rfl
    exact absurd hsame (by decide)

end Workflow

end WorkPlan

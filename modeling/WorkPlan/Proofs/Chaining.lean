import Mathlib.Tactic
import WorkPlan.Proofs.Machine
import WorkPlan.Proofs.Mirroring

/-!
# Definitions that follow the plan

The states of a definition are named after steps on the one hand and after the places of
wide layers on the other.  Names of steps are distinct, and so are places, but a step may
bear the name that a wide layer is given.  A definition follows its plan exactly when no
step does.
-/

namespace WorkPlan

open Json

variable {c : Catalog} {rule : TargetRule} {settings : CompileSettings}

theorem parallelStageName_injective : Function.Injective parallelStageName := by
  intro k l hsame
  exact Nat.repr_injective (String.append_right_inj _ |>.mp hsame)

/-! ## Names of stages -/

/-- The names that come from the place of a stage. -/
def Stage.placeNames : Stage → List String
  | .task _ => []
  | .parallel name _ => [name]

theorem Stage.names_perm (stage : Stage) :
    ([stage.name] ++ stage.inside.map Task.name).Perm
      (stage.tasks.map Task.name ++ stage.placeNames) := by
  cases stage with
  | task t => exact List.Perm.refl [t.name]
  | parallel name branches => exact List.perm_append_comm

theorem Workflow.names_perm (w : Workflow) :
    (w.stages.map Stage.name ++ w.stages.flatMap fun stage => stage.inside.map Task.name).Perm
      (w.tasks.map Task.name ++ w.stages.flatMap Stage.placeNames) := by
  have hstages : w.stages.flatMap (fun stage => [stage.name]) = w.stages.map Stage.name :=
    List.map_eq_flatMap.symm
  have htasks : w.stages.flatMap (fun stage => stage.tasks.map Task.name) =
      w.tasks.map Task.name := List.map_flatMap.symm
  -- Stage by stage: a task stage has its step's name, a parallel one also that of its place.
  rw [← hstages, ← htasks]
  refine (List.flatMap_append_perm _ _ _).trans ?_
  refine List.Perm.trans ?_ (List.flatMap_append_perm _ _ _).symm
  exact List.Perm.flatMap_left _ fun stage _ => stage.names_perm

theorem Stage.Mirrors.mem_placeNames_iff
    {k : Nat} {steps : List Nat} {stage : Stage}
    (hmirrors : stage.Mirrors c rule settings k steps) {name : String} :
    name ∈ stage.placeNames ↔ 2 ≤ steps.length ∧ name = parallelStageName k := by
  cases hmirrors with
  | task _ => simp [Stage.placeNames]
  | parallel hwide _ => simp [Stage.placeNames, hwide]

namespace Workflow.Mirrors

variable {w : Workflow} {layers : List (List Nat)}

theorem mem_placeNames_iff
    (hmirrors : w.Mirrors c rule settings layers) {name : String} :
    name ∈ w.stages.flatMap Stage.placeNames ↔
      ∃ (k : Nat) (steps : _), layers[k]? = some steps ∧ 2 ≤ steps.length ∧
        name = parallelStageName k := by
  rw [List.mem_flatMap]
  constructor
  · rintro ⟨stage, hstage, hname⟩
    obtain ⟨k, hk⟩ := List.getElem?_of_mem hstage
    obtain ⟨steps, hlayer, hmirrored⟩ := hmirrors.exists_layer hk
    exact ⟨k, steps, hlayer, hmirrored.mem_placeNames_iff.mp hname⟩
  · rintro ⟨k, steps, hlayer, hname⟩
    obtain ⟨stage, hk, hmirrored⟩ := hmirrors.exists_stage hlayer
    exact ⟨stage, List.mem_of_getElem? hk, hmirrored.mem_placeNames_iff.mpr hname⟩

theorem placeNames_nodup (hmirrors : w.Mirrors c rule settings layers) :
    (w.stages.flatMap Stage.placeNames).Nodup := by
  rw [List.nodup_flatMap]
  constructor
  · intro stage _
    cases stage <;> simp [Stage.placeNames]
  · rw [List.pairwise_iff_getElem]
    intro k l hk hl hlt name hname hother
    obtain ⟨_, _, hfirst⟩ := hmirrors.exists_layer (List.getElem?_eq_getElem hk)
    obtain ⟨_, _, hsecond⟩ := hmirrors.exists_layer (List.getElem?_eq_getElem hl)
    have hplace := (hfirst.mem_placeNames_iff.mp hname).2
    rw [(hsecond.mem_placeNames_iff.mp hother).2] at hplace
    exact hlt.ne' (parallelStageName_injective hplace)

end Workflow.Mirrors

namespace Plan

/-- No step has the name of the stage of a layer with several steps. -/
def FreshStages (c : Catalog) (p : Plan) : Prop :=
  ∀ (k : Nat) steps, p.layers[k]? = some steps → 2 ≤ steps.length →
    parallelStageName k ∉ p.steps.map c.name

def stageName (c : Catalog) (k : Nat) : List Nat → String
  | [i] => c.name i
  | _ => parallelStageName k

/-- The names of the stages that the layers of a plan become. -/
def stageNames (c : Catalog) (p : Plan) : List String := p.layers.mapIdx (stageName c)

/-- Every step of a layer is called once, under its name and by its target. -/
def LayerCalls
    (c : Catalog) (rule : TargetRule) (steps : List Nat) (calls : List (String × String)) :
    Prop :=
  List.Forall₂ (fun i call => call.1 = c.name i ∧ rule.resolve (c.step i) = .ok call.2)
    steps calls

/-- The one walk through the machine visits the stages of the plan and calls its steps. -/
structure Walked
    (c : Catalog) (rule : TargetRule) (p : Plan) (machine : Value) (start : String)
    (visits : List (String × Value)) : Prop where
  starts : Machine.startAt? machine = some start
  walk : ∀ others, Machine.Walk machine start others ↔ others = visits
  stages : visits.map Prod.fst = p.stageNames c
  calls : ∃ calls, List.Forall₂ Machine.Calls visits calls ∧
    List.Forall₂ (LayerCalls c rule) p.layers calls ∧ (calls.flatten.map Prod.fst).Nodup
  ends : ∀ entry ∈ Machine.states machine,
    Machine.Ends entry.2 ↔ visits.getLast? = some entry

/-- The machine has one state for each layer and leads through the layers in order. -/
structure Chained
    (c : Catalog) (rule : TargetRule) (p : Plan) (machine : Value) : Prop where
  names_nodup : (Machine.stateNames machine).Nodup
  one_each : p.layers ≠ [] → (Machine.states machine).length = p.layers.length
  walked : p.layers ≠ [] → ∃ start visits, p.Walked c rule machine start visits

variable {name : String} {roots : List Nat} {p : Plan} {w : Workflow} {machine : Value}

theorem stages_names_nodup_iff
    (hplan : build c name roots = .ok p) (hmirrors : w.Mirrors c rule settings p.layers) :
    (w.stages.map Stage.name ++
      w.stages.flatMap fun stage => stage.inside.map Task.name).Nodup ↔ p.FreshStages c := by
  have hnames := names_nodup hplan
  rw [w.names_perm.nodup_iff, hmirrors.task_names, List.nodup_append]
  constructor
  · rintro ⟨-, -, hapart⟩ k steps hlayer hwide hname
    have hplace := hmirrors.mem_placeNames_iff.mpr ⟨k, steps, hlayer, hwide, rfl⟩
    exact hapart _ hname _ hplace rfl
  · intro hfresh
    refine ⟨hnames, hmirrors.placeNames_nodup, ?_⟩
    rintro step hstep _ hplace rfl
    obtain ⟨k, steps, hlayer, hwide, rfl⟩ := hmirrors.mem_placeNames_iff.mp hplace
    exact hfresh k steps hlayer hwide hstep

theorem stage_name_of_mirrors
    {k : Nat} {steps : List Nat} {stage : Stage}
    (hmirrors : stage.Mirrors c rule settings k steps) :
    stage.name = stageName c k steps := by
  cases hmirrors with
  | task htask => exact htask.name
  | @parallel steps branches hwide _ =>
      match steps, hwide with
      | _ :: _ :: _, _ => rfl

theorem stages_names_eq (hmirrors : w.Mirrors c rule settings p.layers) :
    w.stages.map Stage.name = p.stageNames c := by
  apply List.ext_getElem?
  intro k
  unfold stageNames
  rw [List.getElem?_map, List.getElem?_mapIdx]
  cases hlayer : p.layers[k]? with
  | none =>
      have hk := List.getElem?_eq_none_iff.mp hlayer
      rw [← hmirrors.stages_length] at hk
      simp [List.getElem?_eq_none_iff.mpr hk]
  | some steps =>
      obtain ⟨stage, hstage, hmirrored⟩ := hmirrors.exists_stage hlayer
      simp [hstage, stage_name_of_mirrors hmirrored]

theorem layerCalls_of_mirrors
    {steps : List Nat} {tasks : List Task}
    (htasks : List.Forall₂ (Task.Mirrors c rule settings) steps tasks) :
    LayerCalls c rule steps (tasks.map fun t => (t.name, t.target)) := by
  apply List.forall₂_map_right_iff.mpr
  exact htasks.imp fun i t htask => ⟨htask.name, htask.target⟩

theorem walked_of_mirrors
    (hplan : build c name roots = .ok p) (hmirrors : w.Mirrors c rule settings p.layers)
    {first : Stage} {rest : List Stage} (hstages : w.stages = first :: rest)
    (hnodup : (w.stages.map Stage.name).Nodup) :
    p.Walked c rule (w.definition settings) first.name (Workflow.states settings w.stages) := by
  have hstates := Workflow.states_definition settings hstages
  have hwalk : Machine.Walk (w.definition settings) first.name
      (Workflow.states settings w.stages) := by
    rw [hstages] at hstates hnodup ⊢
    exact Workflow.walk_of_split [] hstates hnodup
  refine ⟨Workflow.startAt?_definition settings hstages, ?_, ?_, ?_, ?_⟩
  · intro others
    constructor
    · exact hwalk.unique
    · rintro rfl
      exact hwalk
  · rw [Workflow.states_names, stages_names_eq hmirrors]
  · refine ⟨_, Workflow.states_calls w.stages, ?_, ?_⟩
    · apply List.forall₂_map_right_iff.mpr
      exact hmirrors.forall₂_tasks.imp fun _ _ => layerCalls_of_mirrors
    · have hnames : ((w.stages.map fun stage =>
          stage.tasks.map fun t => (t.name, t.target)).flatten.map Prod.fst) =
          w.tasks.map Task.name := by
        simp [Workflow.tasks, List.flatMap_def, List.map_flatten, Function.comp_def]
      rw [hnames, hmirrors.task_names]
      exact names_nodup hplan
  · intro entry hentry
    rw [← Workflow.states_names settings] at hnodup
    rw [hstates, (Members.perm_ofEntries hnodup).mem_iff] at hentry
    exact Workflow.ends_iff_getLast? hentry

theorem stages_names_nodup_of_one_each
    (hmirrors : w.Mirrors c rule settings p.layers) {first : Stage} {rest : List Stage}
    (hstages : w.stages = first :: rest)
    (hone : (Machine.states (w.definition settings)).length = p.layers.length) :
    (w.stages.map Stage.name).Nodup := by
  rw [← Workflow.states_names settings]
  apply Members.keys_nodup_of_length_ofEntries
  rw [← Workflow.states_definition settings hstages, hone, Workflow.states_length,
    hmirrors.stages_length]

theorem chained_of_stages_nil
    (hmirrors : w.Mirrors c rule settings p.layers) (hstages : w.stages = []) :
    p.Chained c rule (w.definition settings) := by
  have hlayers : p.layers = [] := by
    apply List.eq_nil_of_length_eq_zero
    rw [← hmirrors.stages_length, hstages]
    rfl
  refine ⟨?_, absurd hlayers, absurd hlayers⟩
  rw [Workflow.stateNames_definition_of_nil settings hstages]
  exact List.nodup_singleton "Done"

theorem chained_of_names_nodup
    (hplan : build c name roots = .ok p) (hmirrors : w.Mirrors c rule settings p.layers)
    {first : Stage} {rest : List Stage} (hstages : w.stages = first :: rest)
    (hnames : (w.stages.map Stage.name ++
      w.stages.flatMap fun stage => stage.inside.map Task.name).Nodup) :
    p.Chained c rule (w.definition settings) := by
  have hstates := Workflow.states_definition settings hstages
  have hnodup := (List.nodup_append.mp hnames).1
  refine ⟨?_, ?_, ?_⟩
  · exact (Workflow.stateNames_perm hstates hnodup).nodup_iff.mpr hnames
  · intro _
    have hkeys := hnodup
    rw [← Workflow.states_names settings] at hkeys
    rw [hstates, (Members.perm_ofEntries hkeys).length_eq, Workflow.states_length,
      hmirrors.stages_length]
  · intro _
    exact ⟨_, _, walked_of_mirrors hplan hmirrors hstages hnodup⟩

theorem chained_iff
    (hplan : build c name roots = .ok p) (hmirrors : w.Mirrors c rule settings p.layers) :
    p.Chained c rule (w.definition settings) ↔ p.FreshStages c := by
  rw [← stages_names_nodup_iff hplan hmirrors]
  cases hstages : w.stages with
  | nil => exact ⟨fun _ => List.nodup_nil, fun _ => chained_of_stages_nil hmirrors hstages⟩
  | cons first rest =>
      have hlayers : p.layers ≠ [] := by
        intro hnil
        have hlength := hmirrors.stages_length
        rw [hstages, hnil] at hlength
        cases hlength
      have hstates := Workflow.states_definition settings hstages
      rw [← hstages]
      constructor
      · intro hchained
        -- A name that two stages share leaves fewer states than layers.
        have hnodup := stages_names_nodup_of_one_each hmirrors hstages
          (hchained.one_each hlayers)
        exact (Workflow.stateNames_perm hstates hnodup).nodup_iff.mp hchained.names_nodup
      · exact chained_of_names_nodup hplan hmirrors hstages

/-- When all steps of a plan have targets, it has a definition, and the definition leads
through the plan if and only if no step is named like the stage of a wide layer. -/
theorem definition_chained_iff
    (hplan : build c name roots = .ok p) (targets : Option TargetRule)
    (htargets : ∀ i ∈ p.steps,
      ∃ target, (targets.getD .stepName).resolve (c.step i) = .ok target)
    (settings : CompileSettings) :
    ∃ machine, { p with targets }.definition c settings = .ok machine ∧
      (p.Chained c (targets.getD .stepName) machine ↔ p.FreshStages c) := by
  obtain ⟨w, hcompile⟩ := Workflow.exists_compile htargets p.name settings
  have hmirrors := Workflow.compile_mirrors hcompile fun layer hlayer =>
    layers_ne_nil hplan hlayer
  refine ⟨w.definition settings, ?_, chained_iff hplan hmirrors⟩
  apply Except.map_eq_ok_iff.mpr
  exact ⟨w, hcompile, rfl⟩

theorem diamond_freshStages : diamondPlan.FreshStages diamond := by
  intro k steps hlayer hwide
  match k with
  | 0 | 2 =>
      cases hlayer
      exact absurd hwide (by decide)
  | 1 => decide
  | k + 3 => cases hlayer

/-- The definition of the diamond has a state for each of its three layers. -/
theorem definition_chained_iff_diamond :
    build diamond "diamond" [3] = .ok diamondPlan ∧
    (∀ i ∈ diamondPlan.steps, ∃ target,
      (none.getD TargetRule.stepName).resolve (diamond.step i) = .ok target) ∧
    ∃ machine, diamondPlan.definition diamond {} = .ok machine ∧
      (Machine.states machine).map Prod.fst = ["join", "load", "parallel-1"] ∧
      diamondPlan.Chained diamond .stepName machine := by
  have htargets : ∀ i ∈ diamondPlan.steps, ∃ target,
      (none.getD TargetRule.stepName).resolve (diamond.step i) = .ok target :=
    fun i _ => ⟨(diamond.step i).name, rfl⟩
  obtain ⟨machine, hdefinition, hchained⟩ :=
    definition_chained_iff build_diamond none htargets {}
  refine ⟨build_diamond, htargets, machine, hdefinition, ?_, hchained.mpr diamond_freshStages⟩
  cases hdefinition
  rfl

/-- The last of three steps has the name that the layer of the other two is given. -/
def clash : Catalog where
  steps := #[{ name := "a" }, { name := "b" },
    { name := "parallel-0", slots := [.result 0, .result 1] }]
  earlier := by
    intro i s hs
    obtain ⟨hi, rfl⟩ := Array.getElem?_eq_some_iff.mp hs
    clear hs
    revert i
    decide

def clashPlan : Plan where
  name := "clash"
  graph :=
    { graph :=
        { nodes := [2, 0, 1]
          edges := [(0, 2), (1, 2)] }
      order := [1, 0, 2] }
  layers := [[0, 1], [2]]

theorem build_clash : build clash "clash" [2] = .ok clashPlan := by
  cbv

/-- Of the two states of one name only that of the last step is kept, so that the other two
steps are never called. -/
theorem definition_not_chained_clash :
    build clash "clash" [2] = .ok clashPlan ∧
    (∀ i ∈ clashPlan.steps, ∃ target,
      TargetRule.stepName.resolve (clash.step i) = .ok target) ∧
    ∃ machine, clashPlan.definition clash {} = .ok machine ∧
      (Machine.states machine).map Prod.fst = ["parallel-0"] ∧
      ¬ clashPlan.Chained clash .stepName machine := by
  refine ⟨build_clash, fun i _ => ⟨(clash.step i).name, rfl⟩, _, rfl, rfl, ?_⟩
  intro hchained
  have hone := hchained.one_each (by simp [clashPlan])
  cases hone

end Plan

end WorkPlan

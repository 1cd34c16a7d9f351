import Mathlib.Tactic
import WorkPlan.Plan
import WorkPlan.Proofs.FirstError
import WorkPlan.Proofs.Layering

/-!
# Workflows that mirror their plan

Targets are found in a first pass and joined to their steps by position in a second one.
What the two passes make of a step, of a layer and of all layers is described here without
either of them: a task belongs to its step, a stage to its layer.  References between tasks
then lead back to earlier stages because dependencies lead back to earlier layers.
-/

namespace WorkPlan

open Json

variable {c : Catalog} {rule : TargetRule} {settings : CompileSettings}

/-- What becomes of an argument. -/
inductive Slot.CompilesTo (c : Catalog) : Slot → Argument → Prop
  | literal (value : Value) : CompilesTo c (.literal value) (.literal value)
  | result (i : Nat) : CompilesTo c (.result i) (.output (c.name i))

/-- The task says of the step all that the execution service needs to know. -/
structure Task.Mirrors
    (c : Catalog) (rule : TargetRule) (settings : CompileSettings) (i : Nat) (t : Task) :
    Prop where
  name : t.name = c.name i
  target : rule.resolve (c.step i) = .ok t.target
  comment : t.comment = (c.step i).description
  arguments : List.Forall₂ (Slot.CompilesTo c) (c.step i).slots t.arguments
  retry : ∀ retrier, t.retry = some retrier ↔
    ∃ policy, (c.step i).retry = some policy ∧ 0 < policy.maxAttempts ∧
      retrier = ⟨settings.retryErrorEquals, policy.maxAttempts, policy.intervalSeconds,
        policy.backoffRate⟩

/-- The stage at a place in the chain is made of the steps. -/
inductive Stage.Mirrors
    (c : Catalog) (rule : TargetRule) (settings : CompileSettings) (k : Nat) :
    List Nat → Stage → Prop
  | task {i : Nat} {t : Task} (htask : t.Mirrors c rule settings i) :
      Mirrors c rule settings k [i] (.task t)
  | parallel {steps : List Nat} {branches : List Task} (hwide : 2 ≤ steps.length)
      (hbranches : List.Forall₂ (Task.Mirrors c rule settings) steps branches) :
      Mirrors c rule settings k steps (.parallel (parallelStageName k) branches)

/-! ## Tasks and stages -/

theorem Slot.compile_compilesTo (slot : Slot) : slot.CompilesTo c (slot.compile c) := by
  cases slot with
  | literal value => exact .literal value
  | result i => exact .result i

theorem Retrier.ofRetry?_eq_some_iff
    {errorEquals : List String} {policy : Retry} {retrier : Retrier} :
    ofRetry? errorEquals policy = some retrier ↔
      0 < policy.maxAttempts ∧
        retrier = ⟨errorEquals, policy.maxAttempts, policy.intervalSeconds,
          policy.backoffRate⟩ := by
  unfold ofRetry? Retry.enabled
  simp [eq_comm]

theorem Task.ofStep_mirrors
    {i : Nat} {target : String} (htarget : rule.resolve (c.step i) = .ok target) :
    (Task.ofStep c settings i target).Mirrors c rule settings i where
  name := rfl
  target := htarget
  comment := rfl
  arguments := by
    apply List.forall₂_map_right_iff.mpr
    exact List.forall₂_same.mpr fun slot _ => slot.compile_compilesTo
  retry := by
    intro retrier
    simp only [Task.ofStep, Option.bind_eq_some_iff, Retrier.ofRetry?_eq_some_iff]

theorem Stage.ofTasks_mirrors
    {steps : List Nat} {tasks : List Task} (hsome : steps ≠ [])
    (htasks : List.Forall₂ (Task.Mirrors c rule settings) steps tasks) (k : Nat) :
    (Stage.ofTasks k tasks).Mirrors c rule settings k steps := by
  cases htasks with
  | nil => exact absurd rfl hsome
  | cons hfirst hrest =>
      cases hrest with
      | nil => exact .task hfirst
      | cons hsecond hrest =>
          have hwide : ∀ i j (rest : List Nat), 2 ≤ (i :: j :: rest).length := by simp
          exact .parallel (hwide _ _ _) (.cons hfirst (.cons hsecond hrest))

theorem Stage.Mirrors.tasks
    {k : Nat} {steps : List Nat} {stage : Stage}
    (hmirrors : stage.Mirrors c rule settings k steps) :
    List.Forall₂ (Task.Mirrors c rule settings) steps stage.tasks := by
  cases hmirrors with
  | task htask => exact .cons htask .nil
  | parallel _ hbranches => exact hbranches

theorem Task.names_of_mirrors
    {steps : List Nat} {tasks : List Task}
    (htasks : List.Forall₂ (Task.Mirrors c rule settings) steps tasks) :
    tasks.map Task.name = steps.map c.name :=
  map_eq_map_of_forall₂ htasks fun _ _ hmirrors => hmirrors.name

theorem Task.Mirrors.exists_slot
    {i : Nat} {t : Task} (hmirrors : t.Mirrors c rule settings i) {name : String}
    (houtput : .output name ∈ t.arguments) :
    ∃ j, .result j ∈ (c.step i).slots ∧ c.name j = name := by
  obtain ⟨slot, hslot, hcompiles⟩ := exists_of_forall₂_right hmirrors.arguments houtput
  cases hcompiles with
  | result j => exact ⟨j, hslot, rfl⟩

/-! ## Workflows -/

namespace Workflow

variable {layers : List (List Nat)} {w : Workflow} {name : String}

theorem foldl_taskCount (stages : List Stage) (count : Nat) :
    stages.foldl (fun count stage => count + stage.tasks.length) count =
      count + (stages.flatMap Stage.tasks).length := by
  induction stages generalizing count with
  | nil => rfl
  | cons stage stages ih =>
      rw [List.foldl_cons, ih, List.flatMap_cons, List.length_append]
      omega

theorem taskCount_eq_length (w : Workflow) : w.taskCount = w.tasks.length := by
  unfold taskCount tasks
  rw [foldl_taskCount]
  omega

/-- The stages mirror the layers, each in its place. -/
structure Mirrors
    (c : Catalog) (rule : TargetRule) (settings : CompileSettings)
    (layers : List (List Nat)) (w : Workflow) : Prop where
  stages_length : w.stages.length = layers.length
  stage : ∀ (k : Nat) steps stage, layers[k]? = some steps → w.stages[k]? = some stage →
    stage.Mirrors c rule settings k steps

theorem Mirrors.exists_stage
    (hmirrors : w.Mirrors c rule settings layers) {k : Nat} {steps : List Nat}
    (hlayer : layers[k]? = some steps) :
    ∃ stage, w.stages[k]? = some stage ∧ stage.Mirrors c rule settings k steps := by
  have hk : k < w.stages.length := by
    rw [hmirrors.stages_length]
    exact (List.getElem?_eq_some_iff.mp hlayer).1
  have hstage := List.getElem?_eq_getElem hk
  exact ⟨_, hstage, hmirrors.stage k _ _ hlayer hstage⟩

theorem Mirrors.exists_layer
    (hmirrors : w.Mirrors c rule settings layers) {k : Nat} {stage : Stage}
    (hstage : w.stages[k]? = some stage) :
    ∃ steps, layers[k]? = some steps ∧ stage.Mirrors c rule settings k steps := by
  have hk : k < layers.length := by
    rw [← hmirrors.stages_length]
    exact (List.getElem?_eq_some_iff.mp hstage).1
  have hlayer := List.getElem?_eq_getElem hk
  exact ⟨_, hlayer, hmirrors.stage k _ _ hlayer hstage⟩

theorem Mirrors.forall₂_tasks
    (hmirrors : w.Mirrors c rule settings layers) :
    List.Forall₂ (fun steps stage =>
      List.Forall₂ (Task.Mirrors c rule settings) steps stage.tasks) layers w.stages := by
  apply List.forall₂_of_length_eq_of_get hmirrors.stages_length.symm
  intro k hlayer hstage
  exact (hmirrors.stage k _ _ (List.getElem?_eq_getElem hlayer)
    (List.getElem?_eq_getElem hstage)).tasks

theorem Mirrors.stage_names
    (hmirrors : w.Mirrors c rule settings layers) :
    w.stages.map (·.tasks.map Task.name) = layers.map (·.map c.name) :=
  map_eq_map_of_forall₂ hmirrors.forall₂_tasks fun _ _ => Task.names_of_mirrors

theorem Mirrors.task_names
    (hmirrors : w.Mirrors c rule settings layers) :
    w.tasks.map Task.name = layers.flatten.map c.name := by
  have hnames := congrArg List.flatten hmirrors.stage_names
  rw [List.map_flatten, ← hnames, tasks, List.map_flatMap, List.flatMap_def]

theorem forall₂_ofStep
    {steps : List Nat} {found : List String}
    (hfound : List.Forall₂ (fun i target => rule.resolve (c.step i) = .ok target)
      steps found) :
    List.Forall₂ (Task.Mirrors c rule settings) steps
      ((steps.zip found).map fun (i, target) => Task.ofStep c settings i target) := by
  induction hfound with
  | nil => exact .nil
  | cons htarget _ ih => exact .cons (Task.ofStep_mirrors htarget) ih

theorem compile_mirrors
    (hcompile : compile c name layers rule settings = .ok w)
    (hsome : ∀ steps ∈ layers, steps ≠ []) :
    w.Mirrors c rule settings layers := by
  unfold compile at hcompile
  cases hfound : targets c rule layers with
  | error e =>
      rw [hfound] at hcompile
      cases hcompile
  | ok found =>
      rw [hfound] at hcompile
      cases hcompile
      have hlayers := mapM_eq_ok_iff.mp hfound
      refine ⟨by simp [hlayers.length_eq], ?_⟩
      intro k steps stage hsteps hstage
      simp only [List.getElem?_mapIdx, List.getElem?_zip_eq_some, Option.map_eq_some_iff,
        Prod.exists] at hstage
      obtain ⟨layer, names, ⟨hlayer, hnames⟩, rfl⟩ := hstage
      obtain rfl : steps = layer := Option.some.inj (hsteps.symm.trans hlayer)
      -- The names come from the pass over the same layer, so each belongs to its step.
      have hpair : (steps, names) ∈ layers.zip found :=
        List.mem_of_getElem? (List.getElem?_zip_eq_some.mpr ⟨hlayer, hnames⟩)
      have hresolved := mapM_eq_ok_iff.mp (List.forall₂_zip hlayers hpair)
      exact Stage.ofTasks_mirrors (hsome steps (List.mem_of_getElem? hsteps))
        (forall₂_ofStep hresolved) k

theorem exists_compile
    (htargets : ∀ i ∈ layers.flatten, ∃ target, rule.resolve (c.step i) = .ok target)
    (name : String) (settings : CompileSettings) :
    ∃ w, compile c name layers rule settings = .ok w := by
  have hfound : ∃ found, targets c rule layers = .ok found := by
    apply exists_mapM_eq_ok_of_forall
    intro layer hlayer
    apply exists_mapM_eq_ok_of_forall
    intro i hi
    exact htargets i (List.mem_flatten.mpr ⟨layer, hlayer, hi⟩)
  obtain ⟨found, hfound⟩ := hfound
  unfold compile
  rw [hfound]
  exact ⟨_, rfl⟩

/-- The stage at the place has a task of the name. -/
def HasTask (w : Workflow) (k : Nat) (name : String) : Prop :=
  ∃ stage, w.stages[k]? = some stage ∧ name ∈ stage.tasks.map Task.name

theorem Mirrors.hasTask_iff
    (hmirrors : w.Mirrors c rule settings layers) {k : Nat} {name : String} :
    w.HasTask k name ↔ ∃ steps, layers[k]? = some steps ∧ name ∈ steps.map c.name := by
  constructor
  · rintro ⟨stage, hstage, hname⟩
    obtain ⟨steps, hlayer, hmirrored⟩ := hmirrors.exists_layer hstage
    rw [Task.names_of_mirrors hmirrored.tasks] at hname
    exact ⟨steps, hlayer, hname⟩
  · rintro ⟨steps, hlayer, hname⟩
    obtain ⟨stage, hstage, hmirrored⟩ := hmirrors.exists_stage hlayer
    rw [← Task.names_of_mirrors hmirrored.tasks] at hname
    exact ⟨stage, hstage, hname⟩

end Workflow

/-! ## Workflows of plans -/

namespace Plan

variable {name : String} {roots : List Nat} {p : Plan} {w : Workflow}

/-- The workflow has the stages and tasks of the plan, and whatever a task depends on is in
an earlier stage. -/
structure Mirrored
    (c : Catalog) (roots : List Nat) (rule : TargetRule) (settings : CompileSettings)
    (p : Plan) (w : Workflow) : Prop extends w.Mirrors c rule settings p.layers where
  task_names : w.tasks.map Task.name = p.steps.map c.name
  task_count : w.taskCount = p.size
  outputs_earlier : ∀ (k : Nat) stage t name, w.stages[k]? = some stage → t ∈ stage.tasks →
    .output name ∈ t.arguments → ∃ l < k, w.HasTask l name
  dependencies_earlier : ∀ j i, c.Dependency roots j i → ∃ l k, l < k ∧
    (∀ m, w.HasTask m (c.name j) ↔ m = l) ∧ (∀ m, w.HasTask m (c.name i) ↔ m = k)

theorem size_eq_length (hplan : build c name roots = .ok p) : p.size = p.steps.length := by
  have hvalid := build_valid hplan
  have hperm : p.graph.graph.nodes.Perm p.steps := by
    apply (List.perm_ext_iff_of_nodup hvalid.nodes_nodup (steps_nodup hplan)).mpr
    intro i
    exact (hvalid.mem_nodes i).trans (mem_steps hplan).symm
  exact hperm.length_eq

theorem name_mem_iff
    (hplan : build c name roots = .ok p) {layer : List Nat} (hlayer : layer ∈ p.layers)
    {i : Nat} (hreachable : c.Reachable roots i) :
    c.name i ∈ layer.map c.name ↔ i ∈ layer := by
  constructor
  · intro hname
    obtain ⟨j, hj, hsame⟩ := List.mem_map.mp hname
    have hmem : j ∈ p.steps := List.mem_flatten.mpr ⟨layer, hlayer, hj⟩
    rwa [← (build_valid hplan).distinct j i ((mem_steps hplan).mp hmem) hreachable hsame]
  · exact List.mem_map_of_mem

theorem hasTask_iff
    (hplan : build c name roots = .ok p) (hmirrors : w.Mirrors c rule settings p.layers)
    {i : Nat} (hreachable : c.Reachable roots i) {k : Nat} :
    w.HasTask k (c.name i) ↔ k = p.layerOf i := by
  rw [hmirrors.hasTask_iff]
  constructor
  · rintro ⟨layer, hlayer, hname⟩
    have hi := (name_mem_iff hplan (List.mem_of_getElem? hlayer) hreachable).mp hname
    exact (mem_layer_iff hplan hreachable hlayer).mp hi
  · rintro rfl
    obtain ⟨layer, hlayer, hi⟩ := exists_layer hplan hreachable
    exact ⟨layer, hlayer, List.mem_map_of_mem hi⟩

theorem exists_earlier_task
    (hplan : build c name roots = .ok p) (hmirrors : w.Mirrors c rule settings p.layers)
    {k : Nat} {stage : Stage} (hstage : w.stages[k]? = some stage) {t : Task}
    (ht : t ∈ stage.tasks) {output : String} (houtput : .output output ∈ t.arguments) :
    ∃ l < k, w.HasTask l output := by
  obtain ⟨layer, hlayer, hmirrored⟩ := hmirrors.exists_layer hstage
  obtain ⟨i, hi, htask⟩ := exists_of_forall₂_right hmirrored.tasks ht
  obtain ⟨j, hslot, rfl⟩ := htask.exists_slot houtput
  have hsteps : i ∈ p.steps :=
    List.mem_flatten.mpr ⟨layer, List.mem_of_getElem? hlayer, hi⟩
  have hreachable := (mem_steps hplan).mp hsteps
  have hheld : j ∈ c.handles i := Catalog.mem_handles.mpr (Or.inl hslot)
  have hdependency : c.Dependency roots j i := ⟨hreachable, Or.inl hheld⟩
  refine ⟨p.layerOf j, ?_, (hasTask_iff hplan hmirrors hdependency.reachable).mpr rfl⟩
  rw [(mem_layer_iff hplan hreachable hlayer).mp hi]
  exact layerOf_lt_of_dependency hplan hdependency

/-- When all steps of a plan have targets, it is compiled into a workflow that mirrors it. -/
theorem compileWith_mirrored
    (hplan : build c name roots = .ok p)
    (htargets : ∀ i ∈ p.steps, ∃ target, rule.resolve (c.step i) = .ok target)
    (settings : CompileSettings) :
    ∃ w, p.compileWith c rule settings = .ok w ∧ p.Mirrored c roots rule settings w := by
  obtain ⟨w, hcompile⟩ := Workflow.exists_compile htargets p.name settings
  have hmirrors := Workflow.compile_mirrors hcompile fun layer hlayer =>
    layers_ne_nil hplan hlayer
  refine ⟨w, hcompile, hmirrors, hmirrors.task_names, ?_, ?_, ?_⟩
  · rw [w.taskCount_eq_length, size_eq_length hplan, ← List.length_map (f := Task.name),
      hmirrors.task_names, List.length_map]
    rfl
  · intro k stage t output hstage ht houtput
    exact exists_earlier_task hplan hmirrors hstage ht houtput
  · intro j i hdependency
    exact ⟨p.layerOf j, p.layerOf i, layerOf_lt_of_dependency hplan hdependency,
      fun m => hasTask_iff hplan hmirrors hdependency.reachable,
      fun m => hasTask_iff hplan hmirrors hdependency.1⟩

/-- The top and the bottom of the diamond are compiled into tasks, its sides into the
branches of one parallel stage between them. -/
theorem compileWith_mirrored_diamond :
    build diamond "diamond" [3] = .ok diamondPlan ∧
    (∀ i ∈ diamondPlan.steps, ∃ target,
      TargetRule.stepName.resolve (diamond.step i) = .ok target) ∧
    ∃ w, diamondPlan.compileWith diamond .stepName {} = .ok w ∧
      w.stageNames = ["load", "parallel-1", "join"] ∧
      diamondPlan.Mirrored diamond [3] .stepName {} w := by
  have htargets : ∀ i ∈ diamondPlan.steps, ∃ target,
      TargetRule.stepName.resolve (diamond.step i) = .ok target :=
    fun i _ => ⟨(diamond.step i).name, rfl⟩
  obtain ⟨w, hcompile, hmirrored⟩ := compileWith_mirrored build_diamond htargets {}
  refine ⟨build_diamond, htargets, w, hcompile, ?_, hmirrored⟩
  cases hcompile
  rfl

end Plan

end WorkPlan

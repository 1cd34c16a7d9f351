import Mathlib.Tactic
import WorkPlan.Proofs.Machine
import WorkPlan.Proofs.Restoring

/-!
# What a definition remembers

A definition keeps all of a chain of stages but the arguments of its tasks.  The order of
the stages is found by a walk, since the object of the states has lost it.  A state gives
back its stage: an entry that was left out is told apart from every entry that was written,
and the link to the next stage stands apart from the rest of the state.
-/

namespace WorkPlan

open Json

/-! ## Reading states -/

namespace Machine

def retrier? (entry : Value) : Option Retrier := do
  let errorEquals ← Codec.texts? (← entry.get? "ErrorEquals").toTree
  let maxAttempts ← Codec.word32? (← entry.get? "MaxAttempts").toTree
  let intervalSeconds ← Codec.word64? (← entry.get? "IntervalSeconds").toTree
  let backoffRate ← Codec.float? (← entry.get? "BackoffRate").toTree
  return { errorEquals, maxAttempts, intervalSeconds, backoffRate }

/-- The retrier of a state, if it has one. -/
def retry? (state : Value) : Option (Option Retrier) :=
  match state.get? "Retry" with
  | none => some none
  | some (.array [entry]) => (retrier? entry).map some
  | some _ => none

def comment? (state : Value) : Option (Option String) :=
  match state.get? "Comment" with
  | none => some none
  | some comment => comment.string?.map some

def type? (state : Value) : Option String := (state.get? "Type").bind Value.string?

def resource? (state : Value) : Option String := (state.get? "Resource").bind Value.string?

/-- The task of a state that calls a function through the resource. -/
def task? (resource : String) (visit : String × Value) : Option Task :=
  if type? visit.2 = some "Task" ∧ resource? visit.2 = some resource then do
    let target ← function? visit.2
    let retry ← retry? visit.2
    let comment ← comment? visit.2
    return { name := visit.1, target, retry, comment }
  else none

/-- The task of a machine with one state. -/
def branch? (resource : String) (machine : Value) : Option Task :=
  match states machine with
  | [visit] => task? resource visit
  | _ => none

def stage? (resource : String) (visit : String × Value) : Option Stage :=
  if type? visit.2 = some "Parallel" then
    ((branches visit.2).mapM (branch? resource)).map (.parallel visit.1)
  else (task? resource visit).map .task

/-- The machine starts in its only state and ends there. -/
structure Single (machine : Value) (visit : String × Value) : Prop where
  states : Machine.states machine = [visit]
  start : startAt? machine = some visit.1
  ends : Ends visit.2
  halts : visit.2.get? "Next" = none

end Machine

/-! ## What can be read back -/

def Task.bare (t : Task) : Task := { t with arguments := [], inputMode := .passThrough }

/-- The stage without the arguments of its tasks. -/
def Stage.bare : Stage → Stage
  | .task t => .task t.bare
  | .parallel name branches => .parallel name (branches.map Task.bare)

/-! ## Reading what was rendered -/

namespace Json.Value

theorem texts?_strings (items : List String) :
    Codec.texts? (Value.strings items).toTree = some items := by
  have htrees : (Value.strings items).toTree = .list (items.map .text) := by
    rw [strings, toTree, treesOf_eq_map, List.map_map]
    rfl
  have hread : ∀ s ∈ items, Codec.text? (.text s) = some (id s) := fun _ _ => rfl
  rw [htrees, Codec.texts?, Codec.list?, Codec.mapM_map_eq_some hread, List.map_id]

theorem word32?_nat (n : UInt32) : Codec.word32? (Value.nat n.toNat).toTree = some n :=
  (Codec.restores_word32 n).read_kept

theorem word64?_nat (n : UInt64) : Codec.word64? (Value.nat n.toNat).toTree = some n :=
  (Codec.restores_word64 n).read_kept

theorem float?_float
    {x : Binary64} (hfinite : x.isFinite = true) :
    Codec.float? (Value.float x).toTree = some x := by
  simp [Value.float, Number.ofFloat?, hfinite, toTree, Number.toTree, Codec.float?]

end Json.Value

theorem Retrier.retrier?_state
    {r : Retrier} (hrate : r.backoffRate.isFinite = true) :
    Machine.retrier? r.state = some r := by
  simp only [Machine.retrier?, state, Value.get?_ofEntries]
  simp [Members.get?, Value.texts?_strings, Value.word32?_nat, Value.word64?_nat,
    Value.float?_float hrate]

variable {settings : CompileSettings}

namespace Task

theorem get?_state_comment (t : Task) :
    (Value.ofEntries (t.state settings)).get? "Comment" = t.comment.map .string := by
  rw [Value.get?_ofEntries]
  unfold state
  cases t.comment <;> cases t.retry <;> simp [Members.get?]

theorem get?_state_retry (t : Task) :
    (Value.ofEntries (t.state settings)).get? "Retry" =
      t.retry.map fun r => .array [r.state] := by
  rw [Value.get?_ofEntries]
  unfold state
  cases t.comment <;> cases t.retry <;> simp [Members.get?]

theorem type?_stateBefore (t : Task) (rest : List Stage) :
    Machine.type? ((Stage.task t).stateBefore settings rest) = some "Task" := by
  rw [Machine.type?, (Stage.taskCall_stateBefore t rest).type]
  rfl

/-- The rate of the retrier is a number, which a definition can hold. -/
def Finite (t : Task) : Prop := ∀ r ∈ t.retry, r.backoffRate.isFinite = true

theorem task?_stateBefore
    {t : Task} (hfinite : t.Finite) (rest : List Stage) :
    Machine.task? settings.taskResource (t.name, (Stage.task t).stateBefore settings rest) =
      some t.bare := by
  have hresource : Machine.resource? ((Stage.task t).stateBefore settings rest) =
      some settings.taskResource := by
    unfold Machine.resource?
    rw [Stage.get?_stateBefore_of_ne (by decide) (by decide)]
    change Option.bind ((Value.ofEntries (t.state settings)).get? "Resource") _ = _
    rw [t.get?_state settings (by decide) (by decide)]
    rfl
  have hretry : Machine.retry? ((Stage.task t).stateBefore settings rest) = some t.retry := by
    unfold Machine.retry?
    rw [Stage.get?_stateBefore_of_ne (by decide) (by decide)]
    rw [Stage.state, get?_state_retry]
    cases hr : t.retry with
    | none => rfl
    | some r => simp [Retrier.retrier?_state (hfinite r hr)]
  have hcomment : Machine.comment? ((Stage.task t).stateBefore settings rest) =
      some t.comment := by
    unfold Machine.comment?
    rw [Stage.get?_stateBefore_of_ne (by decide) (by decide)]
    rw [Stage.state, get?_state_comment]
    cases t.comment <;> rfl
  have hfunction : Machine.function? ((Stage.task t).stateBefore settings rest) =
      some t.target := (Stage.taskCall_stateBefore t rest).function
  simp [Machine.task?, t.type?_stateBefore, hresource, hfunction, hretry, hcomment, bare]

theorem branch?_branch
    {t : Task} (hfinite : t.Finite) :
    Machine.branch? settings.taskResource (t.branch settings) = some t.bare := by
  rw [Machine.branch?, states_branch]
  exact task?_stateBefore hfinite []

end Task

namespace Stage

theorem get?_end_stateBefore_nil (stage : Stage) :
    (stage.stateBefore settings []).get? "End" = some (.bool true) :=
  ends_stateBefore_iff.mpr rfl

theorem get?_end_stateBefore_cons (stage next : Stage) (rest : List Stage) :
    (stage.stateBefore settings (next :: rest)).get? "End" = none := by
  rw [stateBefore, Value.get?_ofEntries_concat]
  simp [Workflow.following, get?_state_end]

theorem get?_next_stateBefore_nil (stage : Stage) :
    (stage.stateBefore settings []).get? "Next" = none := by
  rw [stateBefore, Value.get?_ofEntries_concat]
  cases stage with
  | task t =>
      have hstate := t.get?_state settings (show "Next" ≠ "Comment" by decide) (by decide)
      simpa [Members.get?, state, Workflow.following] using hstate
  | parallel name branches =>
      simp [state, Value.get?_ofEntries, Members.get?, Workflow.following]

theorem get?_next_stateBefore_cons (stage next : Stage) (rest : List Stage) :
    (stage.stateBefore settings (next :: rest)).get? "Next" = some (.string next.name) := by
  rw [stateBefore, Value.get?_ofEntries_concat]
  rfl

theorem stage?_stateBefore
    {stage : Stage} (hfinite : ∀ t ∈ stage.tasks, t.Finite) (rest : List Stage) :
    Machine.stage? settings.taskResource (stage.name, stage.stateBefore settings rest) =
      some stage.bare := by
  cases stage with
  | task t =>
      have htask : Machine.task? settings.taskResource
          (t.name, (Stage.task t).stateBefore settings rest) = some t.bare :=
        Task.task?_stateBefore (hfinite t (by simp [tasks])) rest
      simp [Machine.stage?, t.type?_stateBefore, name, htask, bare]
  | parallel name branches =>
      have htype : Machine.type? ((Stage.parallel name branches).stateBefore settings rest) =
          some "Parallel" := by
        rw [Machine.type?, get?_stateBefore_of_ne (by decide) (by decide)]
        simp [state, Value.get?_ofEntries, Members.get?, Value.string?]
      have hbranches : (branches.map (Task.branch settings)).mapM
          (Machine.branch? settings.taskResource) = some (branches.map Task.bare) :=
        Codec.mapM_map_eq_some fun t ht => Task.branch?_branch (hfinite t ht)
      simp [Machine.stage?, htype, branches_stateBefore, inside, hbranches, bare, Stage.name]

theorem single_of_mem_branches
    {stage : Stage} {rest : List Stage} {branch : Value}
    (hbranch : branch ∈ Machine.branches (stage.stateBefore settings rest)) :
    ∃ visit, Machine.Single branch visit := by
  rw [branches_stateBefore] at hbranch
  obtain ⟨t, -, rfl⟩ := List.mem_map.mp hbranch
  exact ⟨(t.name, (Stage.task t).stateBefore settings []),
    { states := t.states_branch
      start := t.startAt?_branch
      ends := get?_end_stateBefore_nil (Stage.task t)
      halts := get?_next_stateBefore_nil (Stage.task t) }⟩

end Stage

/-! ## Reading chains -/

namespace Workflow

/-- There are stages, no two of one name, and the rates of their tasks are numbers. -/
structure Readable (w : Workflow) : Prop where
  stages : w.stages ≠ []
  names : w.stageNames.Nodup
  rates : ∀ t ∈ w.tasks, t.Finite

/-- The visits of a walk through the machine, and what they say of the workflow. -/
structure Rendered (settings : CompileSettings) (w : Workflow) (machine : Value)
    (visits : List (String × Value)) : Prop where
  /-- There is one walk, and it makes the visits. -/
  walk : ∃ start, Machine.startAt? machine = some start ∧
    ∀ others, Machine.Walk machine start others ↔ others = visits
  states : (Machine.states machine).Perm visits
  names : visits.map Prod.fst = w.stageNames
  goes : visits.IsChain fun visit following =>
    visit.2.get? "Next" = some (.string following.1) ∧ visit.2.get? "End" = none
  ends : ∀ visit ∈ visits.getLast?,
    visit.2.get? "End" = some (.bool true) ∧ visit.2.get? "Next" = none
  stages : visits.mapM (Machine.stage? settings.taskResource) =
    some (w.stages.map Stage.bare)
  branches : ∀ visit ∈ visits, ∀ branch ∈ Machine.branches visit.2,
    ∃ only, Machine.Single branch only

theorem states_goes (settings : CompileSettings) (stages : List Stage) :
    (states settings stages).IsChain fun visit following =>
      visit.2.get? "Next" = some (.string following.1) ∧ visit.2.get? "End" = none := by
  induction stages with
  | nil => exact .nil
  | cons stage rest ih =>
      cases rest with
      | nil => exact .singleton _
      | cons next rest =>
          rw [states_cons, states_cons]
          refine .cons_cons ?_ ih
          exact ⟨stage.get?_next_stateBefore_cons next rest,
            stage.get?_end_stateBefore_cons next rest⟩

theorem states_ends (stages : List Stage) :
    ∀ visit ∈ (states settings stages).getLast?,
      visit.2.get? "End" = some (.bool true) ∧ visit.2.get? "Next" = none := by
  induction stages with
  | nil => simp [states]
  | cons stage rest ih =>
      cases rest with
      | nil =>
          intro visit hvisit
          obtain rfl := Option.some.inj hvisit
          exact ⟨stage.get?_end_stateBefore_nil, stage.get?_next_stateBefore_nil⟩
      | cons next rest =>
          rw [states_cons, states_cons, List.getLast?_cons_cons]
          exact ih

theorem mapM_stage?_states
    {stages : List Stage} (hfinite : ∀ t ∈ stages.flatMap Stage.tasks, t.Finite) :
    (states settings stages).mapM (Machine.stage? settings.taskResource) =
      some (stages.map Stage.bare) := by
  induction stages with
  | nil => rfl
  | cons stage rest ih =>
      rw [List.flatMap_cons, List.forall_mem_append] at hfinite
      rw [states_cons, List.mapM_cons, Stage.stage?_stateBefore hfinite.1, ih hfinite.2]
      rfl

theorem single_of_mem_states
    {stages : List Stage} {visit : String × Value} (hvisit : visit ∈ states settings stages)
    {branch : Value} (hbranch : branch ∈ Machine.branches visit.2) :
    ∃ only, Machine.Single branch only := by
  induction stages with
  | nil => cases hvisit
  | cons stage rest ih =>
      rcases List.mem_cons.mp hvisit with rfl | hvisit
      · exact Stage.single_of_mem_branches hbranch
      · exact ih hvisit

theorem rendered_definition
    {w : Workflow} (hreadable : w.Readable) (settings : CompileSettings) :
    w.Rendered settings (w.definition settings) (states settings w.stages) := by
  obtain ⟨first, rest, hstages⟩ := List.exists_cons_of_ne_nil hreadable.stages
  have hstates := states_definition settings hstages
  have hnames : (w.stages.map Stage.name).Nodup := hreadable.names
  have hwalk : Machine.Walk (w.definition settings) first.name (states settings w.stages) := by
    rw [hstages] at hstates hnames ⊢
    exact walk_of_split [] hstates hnames
  constructor
  case walk =>
    refine ⟨first.name, startAt?_definition settings hstages, ?_⟩
    intro others
    constructor
    · exact hwalk.unique
    · intro hothers
      rwa [hothers]
  case states =>
    rw [hstates]
    apply Members.perm_ofEntries
    rwa [states_names]
  case names => exact states_names settings w.stages
  case goes => exact states_goes settings w.stages
  case ends => exact states_ends w.stages
  case stages => exact mapM_stage?_states hreadable.rates
  case branches => exact fun visit hvisit branch hbranch => single_of_mem_states hvisit hbranch

/-- Two workflows read out of one machine agree. -/
theorem Rendered.stages_eq
    {w other : Workflow} {machine : Value} {visits others : List (String × Value)}
    (hrendered : w.Rendered settings machine visits)
    (hother : other.Rendered settings machine others) :
    other.stages.map Stage.bare = w.stages.map Stage.bare := by
  obtain ⟨start, hstart, hwalk⟩ := hrendered.walk
  obtain ⟨start', hstart', hwalk'⟩ := hother.walk
  obtain rfl := Option.some.inj (hstart.symm.trans hstart')
  have hvisits : others = visits := (hwalk others).mp ((hwalk' others).mpr rfl)
  rw [hvisits] at hother
  exact Option.some.inj (hother.stages.symm.trans hrendered.stages)

theorem definition_read_back
    {w : Workflow} (hreadable : w.Readable) (settings : CompileSettings) :
    (∃ visits, w.Rendered settings (w.definition settings) visits) ∧
      ∀ other : Workflow, other.Readable →
        other.definition settings = w.definition settings →
          other.stages.map Stage.bare = w.stages.map Stage.bare := by
  have hrendered := rendered_definition hreadable settings
  refine ⟨⟨_, hrendered⟩, ?_⟩
  intro other hother hsame
  have hother := rendered_definition hother settings
  rw [hsame] at hother
  exact hrendered.stages_eq hother

/-- A build, then two checks side by side. -/
def release : Workflow where
  name := "release"
  stages :=
    [.task
        { name := "build"
          target := "build-function"
          retry := some ⟨["States.TaskFailed"], 3, 15, .ofInt 2⟩
          comment := some "" },
      .parallel "checks"
        [{ name := "lint", target := "lint-function", arguments := [.output "build"] },
          { name := "test", target := "test-function", arguments := [.literal .null] }]]

def bareRelease : Workflow := { release with stages := release.stages.map Stage.bare }

theorem definition_read_back_release :
    release.Readable ∧ bareRelease.Readable ∧
      bareRelease.definition {} = release.definition {} ∧
      (∃ visits, release.Rendered {} (release.definition {}) visits) ∧
      bareRelease.stages.map Stage.bare = release.stages.map Stage.bare := by
  have hrate : (Binary64.ofInt 2).isFinite = true := Binary64.isFinite_ofInt (by decide)
  have hrelease : release.Readable :=
    { stages := by simp [release]
      names := by decide
      rates := by simp [release, tasks, Stage.tasks, Task.Finite, hrate] }
  have hbare : bareRelease.Readable :=
    { stages := by simp [bareRelease, release]
      names := by decide
      rates := by
        simp [bareRelease, release, Stage.bare, Task.bare, tasks, Stage.tasks, Task.Finite,
          hrate] }
  have hsame : bareRelease.definition {} = release.definition {} := rfl
  obtain ⟨hvisits, hother⟩ := definition_read_back hrelease {}
  exact ⟨hrelease, hbare, hsame, hvisits, hother bareRelease hbare hsame⟩

end Workflow

end WorkPlan

import Mathlib.Tactic
import WorkPlan.Proofs.Overlay
import WorkPlan.Workflow.Definition

/-!
# Reading state-machine definitions

A definition is read here as the execution service reads it: from the state that it starts
at, every state leads to the one it names next, until one ends the execution.  A task state
calls one function, a parallel state runs the machines of its branches.  Read this way, the
definition of a chain of stages with distinct names gives back the chain.
-/

namespace WorkPlan

open Json

/-! ## States and walks -/

namespace Machine

/-- The states at the top level, by name. -/
def states (machine : Value) : Members Value :=
  match machine.get? "States" with
  | some (.object members) => members
  | _ => []

def startAt? (machine : Value) : Option String :=
  (machine.get? "StartAt").bind Value.string?

def next? (state : Value) : Option String := (state.get? "Next").bind Value.string?

def Ends (state : Value) : Prop := state.get? "End" = some (.bool true)

def function? (state : Value) : Option String :=
  ((state.get? "Parameters").bind (Value.get? "FunctionName")).bind Value.string?

/-- The machines of a parallel state. -/
def branches (state : Value) : List Value :=
  match state.get? "Branches" with
  | some (.array machines) => machines
  | _ => []

/-- The names of all states, at the top level and in branches. -/
def stateNames (machine : Value) : List String :=
  (states machine).map Prod.fst ++ (states machine).flatMap fun entry =>
    (branches entry.2).flatMap fun branch => (states branch).map Prod.fst

/-- The states that an execution visits from a name on, up to the one that ends it. -/
inductive Walk (machine : Value) : String → List (String × Value) → Prop
  | last {name : String} {state : Value} (hstate : (states machine).get? name = some state)
      (hends : Ends state) : Walk machine name [(name, state)]
  | next {name following : String} {state : Value} {rest : List (String × Value)}
      (hstate : (states machine).get? name = some state) (hgoes : ¬ Ends state)
      (hnext : next? state = some following) (hrest : Walk machine following rest) :
      Walk machine name ((name, state) :: rest)

/-- A visit of a task state calls the function under the name of the state. -/
structure TaskCall (visit : String × Value) (call : String × String) : Prop where
  type : visit.2.get? "Type" = some (.string "Task")
  name : call.1 = visit.1
  function : function? visit.2 = some call.2

/-- A machine calls its functions in turn. -/
def Runs (machine : Value) (calls : List (String × String)) : Prop :=
  ∃ start visits, startAt? machine = some start ∧ Walk machine start visits ∧
    List.Forall₂ TaskCall visits calls

/-- What a visit of a state calls: one function, or those of all branches. -/
inductive Calls (visit : String × Value) : List (String × String) → Prop
  | task {call : String × String} (htask : TaskCall visit call) : Calls visit [call]
  | parallel {calls : List (List (String × String))}
      (htype : visit.2.get? "Type" = some (.string "Parallel"))
      (hbranches : List.Forall₂ Runs (branches visit.2) calls) : Calls visit calls.flatten

theorem Walk.unique
    {machine : Value} {name : String} {visits others : List (String × Value)}
    (hwalk : Walk machine name visits) (hother : Walk machine name others) :
    others = visits := by
  induction hwalk generalizing others with
  | last hstate hends =>
      cases hother with
      | last hstate' _ =>
          rw [Option.some.inj (hstate.symm.trans hstate')]
      | next hstate' hgoes _ _ =>
          rw [Option.some.inj (hstate.symm.trans hstate')] at hends
          exact absurd hends hgoes
  | next hstate hgoes hnext _ ih =>
      cases hother with
      | last hstate' hends =>
          rw [Option.some.inj (hstate.symm.trans hstate')] at hgoes
          exact absurd hends hgoes
      | next hstate' _ hnext' hrest' =>
          obtain rfl := Option.some.inj (hstate.symm.trans hstate')
          obtain rfl := Option.some.inj (hnext.symm.trans hnext')
          rw [ih hrest']

end Machine

/-! ## The state of a stage -/

namespace Json.Value

theorem get?_ofEntries (key : String) (entries : List (String × Value)) :
    (Value.ofEntries entries).get? key = Members.get? key entries.reverse := by
  have hoverlay := Members.get?_overlay key [] entries
  rwa [Members.get?_nil, Option.or_none] at hoverlay

theorem get?_ofEntries_concat
    (entries : List (String × Value)) (entry : String × Value) (key : String) :
    (Value.ofEntries (entries ++ [entry])).get? key =
      if key = entry.1 then some entry.2 else (Value.ofEntries entries).get? key := by
  rw [get?_ofEntries, get?_ofEntries, List.reverse_append, List.reverse_singleton]
  rfl

end Json.Value

variable {settings : CompileSettings}

/-- The state of a stage that leads to the first of others, or ends the execution. -/
def Stage.stateBefore (settings : CompileSettings) (stage : Stage) (rest : List Stage) :
    Value :=
  .ofEntries (stage.state settings ++ [Workflow.following rest])

theorem Task.get?_state
    (settings : CompileSettings) (t : Task) {key : String} (hcomment : key ≠ "Comment")
    (hretry : key ≠ "Retry") :
    (Value.ofEntries (t.state settings)).get? key =
      Members.get? key [("Type", .string "Task"),
        ("Resource", .string settings.taskResource),
        ("Parameters",
          .ofEntries [("FunctionName", .string t.target), ("Payload.$", .string "$")])] := by
  rw [Value.get?_ofEntries]
  unfold state
  cases t.comment <;> cases t.retry <;> simp [Members.get?, hcomment, hretry] <;> grind

namespace Stage

theorem get?_stateBefore_of_ne
    {key : String} (hend : key ≠ "End") (hnext : key ≠ "Next") (stage : Stage)
    (rest : List Stage) :
    (stage.stateBefore settings rest).get? key =
      (Value.ofEntries (stage.state settings)).get? key := by
  unfold stateBefore
  rw [Value.get?_ofEntries_concat]
  cases rest with
  | nil => simp [Workflow.following, hend]
  | cons next rest => simp [Workflow.following, hnext]

theorem get?_state_end (stage : Stage) :
    (Value.ofEntries (stage.state settings)).get? "End" = none := by
  cases stage with
  | task t =>
      have hstate := t.get?_state settings (show "End" ≠ "Comment" by decide) (by decide)
      simpa [Members.get?, state] using hstate
  | parallel name branches => simp [state, Value.get?_ofEntries, Members.get?]

theorem ends_stateBefore_iff {stage : Stage} {rest : List Stage} :
    Machine.Ends (stage.stateBefore settings rest) ↔ rest = [] := by
  unfold Machine.Ends stateBefore
  rw [Value.get?_ofEntries_concat]
  cases rest with
  | nil => simp [Workflow.following]
  | cons next rest => simp [Workflow.following, get?_state_end]

@[simp] theorem next?_stateBefore_cons (stage next : Stage) (rest : List Stage) :
    Machine.next? (stage.stateBefore settings (next :: rest)) = some next.name := by
  unfold Machine.next? stateBefore
  rw [Value.get?_ofEntries_concat]
  rfl

theorem taskCall_stateBefore (t : Task) (rest : List Stage) :
    Machine.TaskCall (t.name, (Stage.task t).stateBefore settings rest)
      (t.name, t.target) where
  type := by
    rw [get?_stateBefore_of_ne (by decide) (by decide)]
    exact t.get?_state settings (by decide) (by decide)
  name := rfl
  function := by
    have hparameters : ((Stage.task t).stateBefore settings rest).get? "Parameters" =
        some (.ofEntries [("FunctionName", .string t.target), ("Payload.$", .string "$")]) := by
      rw [get?_stateBefore_of_ne (by decide) (by decide)]
      exact t.get?_state settings (by decide) (by decide)
    unfold Machine.function?
    rw [hparameters, Option.bind_some, Value.get?_ofEntries]
    rfl

/-- The tasks that run side by side inside the state of the stage. -/
def inside : Stage → List Task
  | .task _ => []
  | .parallel _ branches => branches

theorem branches_stateBefore (stage : Stage) (rest : List Stage) :
    Machine.branches (stage.stateBefore settings rest) =
      stage.inside.map (Task.branch settings) := by
  unfold Machine.branches
  rw [get?_stateBefore_of_ne (by decide) (by decide)]
  cases stage with
  | task t =>
      have hnone : (Value.ofEntries (t.state settings)).get? "Branches" = none :=
        t.get?_state settings (by decide) (by decide)
      simp [state, hnone, inside]
  | parallel name branches => simp [state, Value.get?_ofEntries, Members.get?, inside]

end Stage

/-! ## Machines of one task -/

namespace Task

variable (t : Task)

theorem states_branch :
    Machine.states (t.branch settings) = [(t.name, (Stage.task t).stateBefore settings [])] := by
  unfold Machine.states branch
  rw [Value.get?_ofEntries]
  rfl

theorem startAt?_branch : Machine.startAt? (t.branch settings) = some t.name := by
  unfold Machine.startAt? branch
  rw [Value.get?_ofEntries]
  simp [Members.get?, Value.string?]

theorem branch_runs : Machine.Runs (t.branch settings) [(t.name, t.target)] := by
  refine ⟨t.name, [(t.name, (Stage.task t).stateBefore settings [])], t.startAt?_branch, ?_, ?_⟩
  · apply Machine.Walk.last
    · rw [states_branch]
      simp [Members.get?]
    · exact Stage.ends_stateBefore_iff.mpr rfl
  · exact .cons (Stage.taskCall_stateBefore t []) .nil

end Task

theorem Stage.stateBefore_calls (stage : Stage) (rest : List Stage) :
    Machine.Calls (stage.name, stage.stateBefore settings rest)
      (stage.tasks.map fun t => (t.name, t.target)) := by
  cases stage with
  | task t => exact .task (taskCall_stateBefore t rest)
  | parallel name branches =>
      have hcalls : (branches.map fun t => [(t.name, t.target)]).flatten =
          branches.map fun t => (t.name, t.target) := by
        rw [← List.flatMap_def, List.map_eq_flatMap]
      have htype : ((Stage.parallel name branches).stateBefore settings rest).get? "Type" =
          some (.string "Parallel") := by
        rw [get?_stateBefore_of_ne (by decide) (by decide)]
        simp [state, Value.get?_ofEntries, Members.get?]
      have hbranches : List.Forall₂ Machine.Runs
          (Machine.branches ((Stage.parallel name branches).stateBefore settings rest))
          (branches.map fun t => [(t.name, t.target)]) := by
        rw [branches_stateBefore]
        apply List.forall₂_map_left_iff.mpr
        apply List.forall₂_map_right_iff.mpr
        exact List.forall₂_same.mpr fun t _ => t.branch_runs
      rw [Stage.tasks, ← hcalls]
      exact .parallel htype hbranches

/-! ## The states of a chain -/

namespace Workflow

theorem states_cons (stage : Stage) (rest : List Stage) :
    states settings (stage :: rest) =
      (stage.name, stage.stateBefore settings rest) :: states settings rest := rfl

@[simp] theorem states_names (settings : CompileSettings) (stages : List Stage) :
    (states settings stages).map Prod.fst = stages.map Stage.name := by
  induction stages with
  | nil => rfl
  | cons stage rest ih => rw [states_cons, List.map_cons, List.map_cons, ih]

@[simp] theorem states_length (settings : CompileSettings) (stages : List Stage) :
    (states settings stages).length = stages.length := by
  rw [← List.length_map (f := Prod.fst), states_names, List.length_map]

theorem mem_states_of_split (before : List Stage) (stage : Stage) (rest : List Stage) :
    (stage.name, stage.stateBefore settings rest) ∈
      states settings (before ++ stage :: rest) := by
  induction before with
  | nil => exact List.mem_cons_self
  | cons first before ih => exact List.mem_cons_of_mem _ ih

theorem get?_states_of_split
    (settings : CompileSettings) {before rest : List Stage} {stage : Stage}
    (hnodup : ((before ++ stage :: rest).map Stage.name).Nodup) :
    (Members.ofEntries (states settings (before ++ stage :: rest))).get? stage.name =
      some (stage.stateBefore settings rest) := by
  rw [← states_names settings] at hnodup
  rw [Members.get?_ofEntries_of_nodup hnodup, ← Members.mem_iff_get? hnodup]
  exact mem_states_of_split before stage rest

theorem walk_of_split
    {machine : Value} (before : List Stage) {stage : Stage} {rest : List Stage}
    (hstates : Machine.states machine =
      Members.ofEntries (states settings (before ++ stage :: rest)))
    (hnodup : ((before ++ stage :: rest).map Stage.name).Nodup) :
    Machine.Walk machine stage.name (states settings (stage :: rest)) := by
  have hstate := get?_states_of_split settings hnodup
  rw [← hstates] at hstate
  -- The walk moves on as stages pass from the rest to those before; all names stay the same.
  induction rest generalizing before stage with
  | nil => exact .last hstate (Stage.ends_stateBefore_iff.mpr rfl)
  | cons next rest ih =>
      have hgoes : ¬ Machine.Ends (stage.stateBefore settings (next :: rest)) := by
        rw [Stage.ends_stateBefore_iff]
        exact List.cons_ne_nil next rest
      have hsplit : before ++ stage :: next :: rest = (before ++ [stage]) ++ next :: rest := by
        simp
      rw [hsplit] at hstates hnodup
      have hnext := get?_states_of_split settings hnodup
      rw [← hstates] at hnext
      exact .next hstate hgoes (Stage.next?_stateBefore_cons stage next rest)
        (ih (before ++ [stage]) hstates hnodup hnext)

theorem states_calls (stages : List Stage) :
    List.Forall₂ Machine.Calls (states settings stages)
      (stages.map fun stage => stage.tasks.map fun t => (t.name, t.target)) := by
  induction stages with
  | nil => exact .nil
  | cons stage rest ih => exact .cons (stage.stateBefore_calls rest) ih

theorem flatMap_branch_names (settings : CompileSettings) (stages : List Stage) :
    ((states settings stages).flatMap fun entry =>
      (Machine.branches entry.2).flatMap fun branch =>
        (Machine.states branch).map Prod.fst) =
      stages.flatMap fun stage => stage.inside.map Task.name := by
  induction stages with
  | nil => rfl
  | cons stage rest ih =>
      rw [states_cons, List.flatMap_cons, List.flatMap_cons, ih, Stage.branches_stateBefore]
      rw [List.flatMap_map, List.map_eq_flatMap (f := Task.name)]
      simp only [Task.states_branch, List.map_cons, List.map_nil]

theorem stateNames_perm
    {machine : Value} {stages : List Stage}
    (hstates : Machine.states machine = Members.ofEntries (states settings stages))
    (hnodup : (stages.map Stage.name).Nodup) :
    (Machine.stateNames machine).Perm
      (stages.map Stage.name ++ stages.flatMap fun stage => stage.inside.map Task.name) := by
  rw [← states_names settings] at hnodup
  have hperm := Members.perm_ofEntries hnodup
  unfold Machine.stateNames
  rw [hstates, ← states_names settings, ← flatMap_branch_names settings]
  exact (hperm.map _).append (hperm.flatMap_right _)

/-- Of the states of a chain only the last one ends the execution. -/
theorem ends_iff_getLast?
    {stages : List Stage} {entry : String × Value} (hentry : entry ∈ states settings stages) :
    Machine.Ends entry.2 ↔ (states settings stages).getLast? = some entry := by
  induction stages with
  | nil => cases hentry
  | cons stage rest ih =>
      cases rest with
      | nil =>
          have hstage : entry = (stage.name, stage.stateBefore settings []) :=
            List.mem_singleton.mp hentry
          rw [hstage, Stage.ends_stateBefore_iff]
          exact ⟨fun _ => rfl, fun _ => rfl⟩
      | cons next rest =>
          rw [states_cons, states_cons, List.getLast?_cons_cons, ← states_cons]
          -- Two stages may have equal states here: nothing is said of their names.
          by_cases hlater : entry ∈ states settings (next :: rest)
          · exact ih hlater
          · rw [states_cons] at hentry
            obtain rfl := (List.mem_cons.mp hentry).resolve_right hlater
            constructor
            · intro hends
              exact absurd (Stage.ends_stateBefore_iff.mp hends) (List.cons_ne_nil next rest)
            · intro hlast
              exact absurd (List.mem_of_getLast? hlast) hlater

/-! ## Definitions -/

variable {w : Workflow} {first : Stage} {rest : List Stage}

theorem states_definition (settings : CompileSettings) (hstages : w.stages = first :: rest) :
    Machine.states (w.definition settings) =
      Members.ofEntries (states settings w.stages) := by
  unfold Machine.states definition
  rw [hstages]
  simp only [Value.get?_ofEntries]
  rfl

theorem startAt?_definition (settings : CompileSettings) (hstages : w.stages = first :: rest) :
    Machine.startAt? (w.definition settings) = some first.name := by
  unfold Machine.startAt? definition
  rw [hstages]
  simp [Value.get?_ofEntries, Members.get?, Value.string?]

theorem states_definition_of_nil (settings : CompileSettings) (hstages : w.stages = []) :
    Machine.states (w.definition settings) =
      [("Done", .ofEntries [("Type", .string "Succeed")])] := by
  unfold Machine.states definition
  rw [hstages]
  simp only [Value.get?_ofEntries]
  rfl

theorem stateNames_definition_of_nil (settings : CompileSettings) (hstages : w.stages = []) :
    Machine.stateNames (w.definition settings) = ["Done"] := by
  simp [Machine.stateNames, states_definition_of_nil settings hstages, Machine.branches,
    Value.get?_ofEntries, Members.get?]

end Workflow

end WorkPlan

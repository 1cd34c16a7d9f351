import WorkPlan.Settings.Basic
import WorkPlan.Workflow.Document
import WorkPlan.Workflow.Target

/-!
# From layers to workflows

Each layer becomes one stage: a task if the layer has exactly one step, otherwise a parallel stage
with a branch for each step.  All targets are found first, so a missing one leaves no part of a
workflow behind.
-/

namespace WorkPlan

namespace Slot

/-- The argument of a compiled task: a value stays, a result becomes a name to look up. -/
def compile (c : Catalog) : Slot → Argument
  | .literal v => .literal v
  | .result i => .output (c.name i)

end Slot

/-- The task of a step with a target. -/
def Task.ofStep (c : Catalog) (settings : CompileSettings) (i : Nat) (target : String) : Task :=
  let s := c.step i
  { name := s.name
    target := target
    arguments := s.slots.map (Slot.compile c)
    retry := s.retry.bind (Retrier.ofRetry? settings.retryErrorEquals)
    comment := s.description }

/-- The stage of a layer's tasks at a place in the chain. -/
def Stage.ofTasks (index : Nat) : List Task → Stage
  | [t] => .task t
  | ts => .parallel (parallelStageName index) ts

namespace Workflow

/-- The targets of the steps, layer by layer, or the first step without one. -/
def targets (c : Catalog) (rule : TargetRule) (layers : List (List Nat)) :
    Except Unresolved (List (List String)) :=
  layers.mapM fun layer => layer.mapM fun i => rule.resolve (c.step i)

def compile (c : Catalog) (name : String) (layers : List (List Nat)) (rule : TargetRule)
    (settings : CompileSettings) : Except Unresolved Workflow := do
  let found ← targets c rule layers
  let stages := (layers.zip found).mapIdx fun index (layer, names) =>
    Stage.ofTasks index ((layer.zip names).map fun (i, target) => Task.ofStep c settings i target)
  return { name, comment := settings.comment, stages }

end Workflow

end WorkPlan

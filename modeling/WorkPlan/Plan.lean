import WorkPlan.Graph.Layers
import WorkPlan.Run.Concurrent
import WorkPlan.Run.Sequential
import WorkPlan.Workflow.Compilation
import WorkPlan.Workflow.Definition

/-!
# Plans

A plan is a graph without faults, with its layers.  Nothing changes it, except that a target rule
may be set once, when its steps are deployed.
-/

namespace WorkPlan

open Json

structure Plan where
  name : String
  graph : OrderedGraph
  layers : List (List Nat)
  targets : Option TargetRule := none

namespace Plan

/-- The plan of everything that the roots depend on. -/
def build (c : Catalog) (name : String) (roots : List Nat) : Except PlanError Plan := do
  let graph ← OrderedGraph.build c roots
  return { name, graph, layers := graph.layers c }

/-- What is logged when a plan is built. -/
def buildEvents : Except PlanError Plan → List Log.Event
  | .ok p => [.planBuilt p.name p.graph.size p.layers.length]
  | .error _ => []

def size (p : Plan) : Nat := p.graph.size

def isEmpty (p : Plan) : Bool := p.graph.isEmpty

/-- The steps, layer by layer. -/
def steps (p : Plan) : List Nat := p.layers.flatten

/-- The steps with every dependency before its dependents. -/
def orderedSteps (p : Plan) : List Nat := p.graph.order

def manifests (c : Catalog) (p : Plan) : List Manifest := p.steps.map c.manifest

/-! ## Workflows -/

/-- Sets the target rule, if none is set. -/
def setTargets (p : Plan) (rule : TargetRule) : Except PlanError Plan :=
  match p.targets with
  | some _ => .error .targetsAlreadySet
  | none => .ok { p with targets := some rule }

def compileWith (c : Catalog) (p : Plan) (rule : TargetRule) (settings : CompileSettings) :
    Except Unresolved Workflow :=
  Workflow.compile c p.name p.layers rule settings

/-- The workflow for the target rule that was set, or for step names as targets. -/
def compile (c : Catalog) (p : Plan) (settings : CompileSettings) : Except Unresolved Workflow :=
  p.compileWith c (p.targets.getD .stepName) settings

/-- What is logged when a workflow is compiled. -/
def compileEvents : Except Unresolved Workflow → List Log.Event
  | .ok w => [.workflowCompiled w.name w.stages.length]
  | .error _ => []

def definition (c : Catalog) (p : Plan) (settings : CompileSettings) : Except Unresolved Value :=
  (p.compile c settings).map (Workflow.definition settings)

/-! ## Runs -/

variable {σ : Type}

/-- Adds an event before a run and, if the run is completed, one after it. -/
def report (before after : Log.Event) (r : Run σ RunResult) : Run σ RunResult :=
  let ending := match r.result with | .ok _ => [after] | .error _ => []
  { r with journal := { r.journal with events := before :: r.journal.events ++ ending } }

def run (c : Catalog) (p : Plan) (crew : Crew σ) (state : σ) : Run σ RunResult :=
  report (.runStarted p.name) (.runCompleted p.name) (.sequential c crew p.layers state)

/-- Runs the steps of each layer side by side. -/
def runConcurrently (c : Catalog) (p : Plan) (crew : Crew σ) (schedule : Schedule) (state : σ) :
    Run σ RunResult :=
  report (.concurrentRunStarted p.name) (.concurrentRunCompleted p.name)
    (.concurrent c crew schedule p.layers state)

end Plan

end WorkPlan

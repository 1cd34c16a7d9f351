import WorkPlan.Handoff
import WorkPlan.Log.Event
import WorkPlan.Step.Basic
import WorkPlan.Workflow.Document

/-!
# Runs

A run gives every step the results of the steps that its arguments refer to, looked up by name.  It
ends with the results of all layers, or with the first error.  Beside its result a run keeps a
journal: the state of the crew, a trace of the work that started and ended, and the events it logged.
-/

namespace WorkPlan

open Json

inductive RunError
  /-- The work of a step failed. -/
  | stepFailed (step : String) (failure : Failure)
  /-- A step needs a result that is not there. -/
  | missingResult (step dependency : String)
  /-- The work of a step crashed beside others. -/
  | notCompleted (step reason : String)
  /-- The work of a step crashed on its own. -/
  | crashed (step message : String)
deriving DecidableEq, Repr

namespace RunError

/-- The step to which the error belongs. -/
def step : RunError → String
  | .stepFailed step _ | .missingResult step _ | .notCompleted step _ | .crashed step _ => step

def message : RunError → String
  | .stepFailed step failure => "step '" ++ step ++ "' failed: " ++ failure.message
  | .missingResult step dependency =>
    "step '" ++ step ++ "' needs the output of '" ++ dependency ++ "', which is not available"
  | .notCompleted step reason => "step '" ++ step ++ "' did not complete: " ++ reason
  | .crashed _ message => message

/-- The texts of the errors behind the error, the outermost first. -/
def causes : RunError → List String
  | .stepFailed _ failure => failure.chain
  | _ => []

end RunError

/-! ## Arguments -/

/-- The value of one argument, results looked up by the name of their step. -/
def Slot.value (c : Catalog) (step : Nat) (found? : String → Option Value) :
    Slot → Except RunError Value
  | .literal v => .ok v
  | .result i =>
    match found? (c.name i) with
    | some v => .ok v
    | none => .error (.missingResult (c.name step) (c.name i))

/-- The arguments of a step, or the first result that is missing. -/
def Catalog.arguments (c : Catalog) (step : Nat) (found? : String → Option Value) :
    Except RunError (List Value) :=
  (c.step step).slots.mapM (Slot.value c step found?)

/-- The arguments of a step out of the results of a run. -/
def Catalog.argumentsFrom (c : Catalog) (step : Nat) (results : Members Value) :
    Except RunError (List Value) :=
  c.arguments step results.get?

/-- The arguments of a deployed step out of a payload; only an object has outputs. -/
def Catalog.argumentsFromPayload (c : Catalog) (step : Nat) (payload : Value) :
    Except RunError (List Value) :=
  c.arguments step payload.get?

/-! ## Results -/

/-- The results of a completed run: name and value of each step, layer by layer. -/
structure RunResult where
  layers : List (List (String × Value)) := []

namespace RunResult

def get? (r : RunResult) (name : String) : Option Value := r.layers.flatten.lookup name

def outputs (r : RunResult) : Members Value := Members.ofEntries r.layers.flatten

end RunResult

/-! ## Journals -/

/-- The start or the end of the work of a step. -/
inductive Mark
  | started (step : Nat)
  | returned (step : Nat)
  | failed (step : Nat)
  | crashed (step : Nat)
deriving DecidableEq, Repr

namespace Mark

/-- The end of the work of a step with an outcome. -/
def ofOutcome (step : Nat) : Outcome → Mark
  | .returned _ => .returned step
  | .failed _ => .failed step
  | .crashed _ => .crashed step

def started? : Mark → Option Nat
  | .started i => some i
  | _ => none

end Mark

/-- What a run leaves behind beside its result. -/
structure Journal (σ : Type) where
  state : σ
  trace : List Mark := []
  events : List Log.Event := []

namespace Journal

variable {σ : Type}

def log (j : Journal σ) (event : Log.Event) : Journal σ := { j with events := j.events ++ [event] }

def mark (j : Journal σ) (m : Mark) : Journal σ := { j with trace := j.trace ++ [m] }

def call (crew : Crew σ) (step : Nat) (args : List Value) (j : Journal σ) : Outcome × Journal σ :=
  let (outcome, state) := crew step args j.state
  (outcome, { j.mark (.started step) with state })

/-- The steps whose work was called, in the order of the calls. -/
def calls (j : Journal σ) : List Nat := j.trace.filterMap Mark.started?

end Journal

structure Run (σ α : Type) where
  result : Except RunError α
  journal : Journal σ

end WorkPlan

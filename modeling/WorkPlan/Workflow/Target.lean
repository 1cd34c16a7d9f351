import WorkPlan.Step.Basic

/-!
# Targets

The target that the execution service invokes for a step is known once the step is deployed.  A
target rule gives it for a step or says why it cannot.  Rules may come from anywhere; those here are
the names of the steps, a table of targets, and a function that may not know a step.
-/

namespace WorkPlan

/-- A step without a target, and the reason. -/
structure Unresolved where
  step : String
  reason : String
deriving DecidableEq, Repr

def Unresolved.message (e : Unresolved) : String :=
  "cannot resolve target for step '" ++ e.step ++ "': " ++ e.reason

/-- What is said when a missing target keeps a workflow from being compiled. -/
def Unresolved.compileMessage (e : Unresolved) : String := "resolution error: " ++ e.message

/-- Any way to find the target of a step. -/
structure TargetRule where
  resolve : Step → Except Unresolved String

namespace TargetRule

/-- Every step's name is its target. -/
def stepName : TargetRule := ⟨fun s => .ok s.name⟩

/-- The targets of deployed steps, by step name. -/
def registered (targets : Dictionary String) : TargetRule where
  resolve s :=
    match targets.get? s.name with
    | some target => .ok target
    | none => .error ⟨s.name, "no deployed target registered"⟩

/-- Asks a function that knows the targets of some steps. -/
def custom (target? : Step → Option String) : TargetRule where
  resolve s :=
    match target? s with
    | some target => .ok target
    | none => .error ⟨s.name, "resolver returned no target"⟩

/-- Knows the steps whose name begins with `strip`, and puts `prepend` in its place. -/
def substituting (strip prepend : String) : TargetRule :=
  .custom fun s =>
    if strip.toList.isPrefixOf s.name.toList then
      some (prepend ++ String.ofList (s.name.toList.drop strip.length))
    else none

end TargetRule

end WorkPlan

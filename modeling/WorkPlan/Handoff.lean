import WorkPlan.Json.Value

/-!
# What stages hand on

A stage receives the event that the stage before it produced: one invocation result, or a list of
them.  Each result wraps an object of outputs by step name under `Payload`.  A task answers with
what it received and its own result, so every output stays in sight of all later stages.
-/

namespace WorkPlan.Handoff

open Json

/-- The outputs that an invocation result carries: the members of its `Payload`, if that is an object. -/
def carried (result : Value) : Members Value :=
  match result.get? "Payload" with
  | some (.object members) => members
  | _ => []

/--
The outputs that an event carries: those of the single result, or those of all results of a list laid
over one another in turn.  Any other event carries none.
-/
def combine : Value → Members Value
  | .array results => results.foldl (fun members result => members.overlay (carried result)) []
  | .object members => Members.ofEntries (carried (.object members))
  | _ => []

/-- The outputs that a task hands on: the received ones and its own result under its name. -/
def extend (name : String) (event result : Value) : Members Value :=
  (combine event).insert name result

/-- The invocation result that carries the given outputs. -/
def wrap (outputs : Members Value) : Value := .object [("Payload", .object outputs)]

end WorkPlan.Handoff

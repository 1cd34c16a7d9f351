import WorkPlan.Settings.Basic
import WorkPlan.Workflow.Document

/-!
# State-machine definitions

A workflow is rendered as one state for each stage, every state leading to the next and the last one
ending the execution.  Literal arguments are not rendered: they are deployed with the step.  A
workflow without stages is rendered as a single state that succeeds.
-/

namespace WorkPlan

open Json

namespace Retrier

def state (r : Retrier) : Value :=
  .ofEntries
    [("ErrorEquals", .strings r.errorEquals), ("IntervalSeconds", .nat r.intervalSeconds.toNat),
      ("MaxAttempts", .nat r.maxAttempts.toNat), ("BackoffRate", .float r.backoffRate)]

end Retrier

namespace Task

def state (settings : CompileSettings) (t : Task) : List (String × Value) :=
  [("Type", .string "Task"), ("Resource", .string settings.taskResource),
      ("Parameters",
        .ofEntries [("FunctionName", .string t.target), ("Payload.$", .string "$")])]
    ++ (match t.comment with
      | some comment => [("Comment", .string comment)]
      | none => [])
    ++ (match t.retry with
      | some retrier => [("Retry", .array [retrier.state])]
      | none => [])

/-- The state machine of a branch, which has the task as its only state. -/
def branch (settings : CompileSettings) (t : Task) : Value :=
  .ofEntries
    [("StartAt", .string t.name),
      ("States",
        .ofEntries [(t.name, .ofEntries (t.state settings ++ [("End", .bool true)]))])]

end Task

namespace Stage

/-- The state of a stage, but for what follows it. -/
def state (settings : CompileSettings) : Stage → List (String × Value)
  | .task t => t.state settings
  | .parallel _ branches =>
    [("Type", .string "Parallel"), ("Branches", .array (branches.map (Task.branch settings)))]

end Stage

namespace Workflow

/-- What follows a state: the stage after it, or the end. -/
def following : List Stage → String × Value
  | [] => ("End", .bool true)
  | next :: _ => ("Next", .string next.name)

/-- The states of a chain of stages; of stages with one name the last one's state is kept. -/
def states (settings : CompileSettings) : List Stage → List (String × Value)
  | [] => []
  | stage :: rest =>
    (stage.name, .ofEntries (stage.state settings ++ [following rest])) :: states settings rest

def definition (settings : CompileSettings) (w : Workflow) : Value :=
  let comment := Value.string (w.comment.getD w.name)
  match w.stages with
  | [] =>
    .ofEntries
      [("Comment", comment), ("StartAt", .string "Done"),
        ("States", .ofEntries [("Done", .ofEntries [("Type", .string "Succeed")])])]
  | first :: _ =>
    .ofEntries
      [("Comment", comment), ("StartAt", .string first.name),
        ("States", .ofEntries (states settings w.stages))]

end Workflow

end WorkPlan

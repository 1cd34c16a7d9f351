import WorkPlan.Workflow.Retry

/-!
# Workflow documents

A workflow is a chain of stages that run strictly in order.  A stage is one task, or several tasks
side by side.  A task invokes a deployed target; its arguments are values, or outputs of earlier
steps given by the step's name.
-/

namespace WorkPlan

open Json

/-- How the outputs of earlier stages reach a task: all of them are passed through. -/
inductive InputMode
  | passThrough
deriving DecidableEq, Repr

namespace InputMode

def encode : InputMode → Tree
  | .passThrough => .text "pass_through"

def decode? (d : Dialect) (t : Tree) : Option InputMode :=
  (Codec.bare? d "pass_through" t).map fun _ => .passThrough

end InputMode

inductive Argument
  | literal (value : Value)
  | output (step : String)

namespace Argument

def caseNames : List String := ["literal", "step_output"]

def encode : Argument → Tree
  | .literal value => .table [("kind", .text "literal"), ("value", value.toTree)]
  | .output step => .table [("kind", .text "step_output"), ("step", .text step)]

def decode? (d : Dialect) (t : Tree) : Option Argument := do
  let (tag, contents) ← Codec.tagged? "kind" t
  match ← Codec.case? d caseNames tag with
  | 0 =>
    let field ← Codec.fields? d.inside ["value"] contents
    return .literal (← Codec.required (field "value") Value.ofTree?)
  | _ =>
    let field ← Codec.fields? d.inside ["step"] contents
    return .output (← Codec.required (field "step") Codec.text?)

end Argument

/-- The invocation of one deployed step. -/
structure Task where
  name : String
  target : String
  inputMode : InputMode := .passThrough
  arguments : List Argument := []
  retry : Option Retrier := none
  comment : Option String := none

namespace Task

def fieldNames : List String :=
  ["name", "target", "input_mode", "arguments", "retry", "comment"]

def entries (t : Task) : List (String × Tree) :=
  ("name", .text t.name) :: ("target", .text t.target) :: ("input_mode", t.inputMode.encode)
    :: Tree.unlessEmpty "arguments" (t.arguments.map Argument.encode)
    ++ Tree.optional "retry" (t.retry.map Retrier.encode)
    ++ Tree.optional "comment" (t.comment.map .text)

def encode (t : Task) : Tree := .table t.entries

def decode? (d : Dialect) (t : Tree) : Option Task := do
  let field ← Codec.fields? d fieldNames t
  let name ← Codec.required (field "name") Codec.text?
  let target ← Codec.required (field "target") Codec.text?
  let inputMode ← Codec.required (field "input_mode") (InputMode.decode? d)
  let arguments ← Codec.defaulted [] (field "arguments") (Codec.list? (Argument.decode? d))
  let retry ← Codec.optional (field "retry") (Retrier.decode? d)
  let comment ← Codec.optional (field "comment") Codec.text?
  return { name, target, inputMode, arguments, retry, comment }

end Task

inductive Stage
  | task (task : Task)
  | parallel (name : String) (branches : List Task)

namespace Stage

def name : Stage → String
  | .task t => t.name
  | .parallel name _ => name

def tasks : Stage → List Task
  | .task t => [t]
  | .parallel _ branches => branches

def caseNames : List String := ["task", "parallel"]

def encode : Stage → Tree
  | .task t => .table (("type", .text "task") :: t.entries)
  | .parallel name branches =>
    .table
      [("type", .text "parallel"), ("name", .text name), ("branches", .list (branches.map Task.encode))]

def decode? (d : Dialect) (t : Tree) : Option Stage := do
  let (tag, contents) ← Codec.tagged? "type" t
  match ← Codec.case? d caseNames tag with
  | 0 => return .task (← Task.decode? d.inside contents)
  | _ =>
    let field ← Codec.fields? d.inside ["name", "branches"] contents
    let name ← Codec.required (field "name") Codec.text?
    let branches ← Codec.required (field "branches") (Codec.list? (Task.decode? d.inside))
    return .parallel name branches

end Stage

structure Workflow where
  name : String
  comment : Option String := none
  stages : List Stage

namespace Workflow

def tasks (w : Workflow) : List Task := w.stages.flatMap Stage.tasks

def taskCount (w : Workflow) : Nat :=
  w.stages.foldl (fun count stage => count + stage.tasks.length) 0

def stageNames (w : Workflow) : List String := w.stages.map Stage.name

def fieldNames : List String := ["name", "comment", "stages"]

def encode (w : Workflow) : Tree :=
  .table
    (("name", .text w.name) :: Tree.optional "comment" (w.comment.map .text)
      ++ [("stages", .list (w.stages.map Stage.encode))])

def decode? (d : Dialect) (t : Tree) : Option Workflow := do
  let field ← Codec.fields? d fieldNames t
  let name ← Codec.required (field "name") Codec.text?
  let comment ← Codec.optional (field "comment") Codec.text?
  let stages ← Codec.required (field "stages") (Codec.list? (Stage.decode? d))
  return { name, comment, stages }

end Workflow

end WorkPlan

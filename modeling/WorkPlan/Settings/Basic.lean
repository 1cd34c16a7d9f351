import WorkPlan.Codec.Record

/-!
# Settings

Every setting has a default, so an empty table of settings is complete.
-/

namespace WorkPlan

/-- How workflows and their definitions are written. -/
structure CompileSettings where
  /-- The resource that every task state names. -/
  taskResource : String := "arn:aws:states:::lambda:invoke"
  /-- The error names that every retrier matches. -/
  retryErrorEquals : List String := ["States.TaskFailed"]
  /-- The comment of a workflow; its name stands in for a missing one. -/
  comment : Option String := none
deriving DecidableEq, Repr

namespace CompileSettings

def fieldNames : List String := ["task_resource", "retry_error_equals", "comment"]

def encode (s : CompileSettings) : Tree :=
  .table
    (("task_resource", .text s.taskResource) :: ("retry_error_equals", .strings s.retryErrorEquals)
      :: Tree.optional "comment" (s.comment.map .text))

def decode? (d : Dialect) (t : Tree) : Option CompileSettings := do
  let field ← Codec.fields? d fieldNames t
  let taskResource ←
    Codec.defaulted ({} : CompileSettings).taskResource (field "task_resource") Codec.text?
  let retryErrorEquals ←
    Codec.defaulted ({} : CompileSettings).retryErrorEquals (field "retry_error_equals") Codec.texts?
  let comment ← Codec.optional (field "comment") Codec.text?
  return { taskResource, retryErrorEquals, comment }

end CompileSettings

/-- How the log is filtered and written. -/
structure LogSettings where
  /-- The filter when the environment has none. -/
  filter : String := "info"
  /-- Whether the log is written as JSON lines. -/
  jsonLines : Bool := false
  /-- Whether spans are sent on as well. -/
  exportSpans : Bool := false
deriving DecidableEq, Repr

namespace LogSettings

def fieldNames : List String := ["filter", "json", "otel"]

def encode (s : LogSettings) : Tree :=
  .table [("filter", .text s.filter), ("json", .bool s.jsonLines), ("otel", .bool s.exportSpans)]

def decode? (d : Dialect) (t : Tree) : Option LogSettings := do
  let field ← Codec.fields? d fieldNames t
  let filter ← Codec.defaulted ({} : LogSettings).filter (field "filter") Codec.text?
  let jsonLines ← Codec.defaulted false (field "json") Codec.flag?
  let exportSpans ← Codec.defaulted false (field "otel") Codec.flag?
  return { filter, jsonLines, exportSpans }

end LogSettings

structure Settings where
  compile : CompileSettings := {}
  log : LogSettings := {}
deriving DecidableEq, Repr

namespace Settings

def fieldNames : List String := ["compiler", "tracing"]

def encode (s : Settings) : Tree :=
  .table [("compiler", s.compile.encode), ("tracing", s.log.encode)]

def decode? (d : Dialect) (t : Tree) : Option Settings := do
  let field ← Codec.fields? d fieldNames t
  let compile ← Codec.defaulted {} (field "compiler") (CompileSettings.decode? d)
  let log ← Codec.defaulted {} (field "tracing") (LogSettings.decode? d)
  return { compile, log }

end Settings

end WorkPlan

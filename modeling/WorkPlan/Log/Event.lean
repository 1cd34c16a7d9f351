import WorkPlan.Log.Filter

/-!
# Log events

What the library reports while it works.  An event has a level, a message and fields, which are
texts or counts.
-/

namespace WorkPlan.Log

inductive Field
  | text (value : String)
  | count (value : Nat)
deriving DecidableEq, Repr

inductive Event
  | planBuilt (plan : String) (steps layers : Nat)
  | workflowCompiled (plan : String) (stages : Nat)
  | runStarted (plan : String)
  | runCompleted (plan : String)
  | concurrentRunStarted (plan : String)
  | concurrentRunCompleted (plan : String)
  | layerEntered (index width : Nat)
  | stepInvoked (step : String) (arguments : Nat)
  | stepFailed (step error : String)
  | settingsMissing (path : String)
  | settingsUnreadable (path reason : String)
  | settingsMalformed (path reason : String)
deriving DecidableEq, Repr

namespace Event

def level : Event → Level
  | .planBuilt .. | .runStarted _ | .runCompleted _ => .info
  | .concurrentRunStarted _ | .concurrentRunCompleted _ => .info
  | .workflowCompiled .. | .layerEntered .. | .stepInvoked .. | .settingsMissing _ => .debug
  | .stepFailed .. | .settingsUnreadable .. | .settingsMalformed .. => .warn

def message : Event → String
  | .planBuilt .. => "plan built"
  | .workflowCompiled .. => "compiled workflow document"
  | .runStarted _ => "starting local run"
  | .runCompleted _ => "local run completed"
  | .concurrentRunStarted _ => "starting concurrent local run"
  | .concurrentRunCompleted _ => "concurrent local run completed"
  | .layerEntered .. => "processing generation"
  | .stepInvoked .. => "invoking step"
  | .stepFailed .. => "step failed"
  | .settingsMissing path => "No config found at " ++ path ++ ", using defaults"
  | .settingsUnreadable path reason => "Failed to read " ++ path ++ ": " ++ reason ++ ", using defaults"
  | .settingsMalformed path reason =>
    "Failed to parse " ++ path ++ ": " ++ reason ++ ", using defaults"

def fields : Event → List (String × Field)
  | .planBuilt plan steps layers =>
    [("plan", .text plan), ("steps", .count steps), ("generations", .count layers)]
  | .workflowCompiled plan stages => [("plan", .text plan), ("stages", .count stages)]
  | .runStarted plan | .runCompleted plan => [("plan", .text plan)]
  | .concurrentRunStarted plan | .concurrentRunCompleted plan => [("plan", .text plan)]
  | .layerEntered index width => [("generation", .count index), ("steps", .count width)]
  | .stepInvoked step arguments => [("step", .text step), ("args", .count arguments)]
  | .stepFailed step error => [("step", .text step), ("error", .text error)]
  | .settingsMissing _ | .settingsUnreadable .. | .settingsMalformed .. => []

end Event

def Level.name : Level → String
  | .error => "ERROR"
  | .warn => "WARN"
  | .info => "INFO"
  | .debug => "DEBUG"
  | .trace => "TRACE"

end WorkPlan.Log

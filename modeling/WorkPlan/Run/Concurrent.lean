import WorkPlan.Run.Basic
import WorkPlan.Text.Quoted

/-!
# Running the steps of a layer side by side

The tasks of a layer are spawned in its order, each with arguments out of the results of earlier
layers, and when all are spawned they are joined.  Meanwhile their work starts and ends on threads
of its own, in any order.  When all are joined the results are published, in the order of the layer.

An argument that is not there ends the run, and so does the first join of a task whose work failed
or crashed.  Tasks that wait are called off then, but work that has started is not stopped.

What happens next is not up to the run, so it is an argument here: a schedule gives for each layer
the moves that are tried, and those that are not possible are skipped.
-/

namespace WorkPlan

open Json

variable {σ : Type}

/-- What may happen in a layer; tasks are given by their places. -/
inductive Move
  /-- The task of the next step is put in the queue. -/
  | spawn
  /-- The work of a task in the queue starts. -/
  | start (place : Nat)
  /-- The work of a task ends. -/
  | finish (place : Nat)
  /-- The run takes notice of the end of a task. -/
  | join (place : Nat)
  /-- The tasks in the queue are called off. -/
  | abort
deriving DecidableEq, Repr

/-- For the index of a layer and its steps, the moves that are tried. -/
abbrev Schedule := Nat → List Nat → List Move

/-- A single thread works off the queue; every task is joined before the next one starts, and tasks
are called off at once after an error. -/
def Schedule.inOrder : Schedule := fun _ steps =>
  List.replicate steps.length .spawn ++ .abort ::
    (List.range steps.length).flatMap fun place =>
      [.start place, .finish place, .join place, .abort]

/-- How far a task is. -/
inductive TaskState
  | queued (args : List Value)
  | running (outcome : Outcome)
  | ended (outcome : Outcome)
  | joined (outcome : Outcome)
  | aborted

namespace TaskState

/-- What becomes of a task when those in the queue are called off. -/
def calledOff : TaskState → TaskState
  | .queued _ => .aborted
  | task => task

def isJoined : TaskState → Bool
  | .joined _ => true
  | _ => false

/-- The result of a task that is joined. -/
def value? : TaskState → Option Value
  | .joined (.returned v) => some v
  | _ => none

end TaskState

/-- The spawned tasks of a layer by place, and the error that ended it. -/
structure LayerState (σ : Type) where
  tasks : List TaskState := []
  error? : Option RunError := none
  journal : Journal σ

/-- The work of a step ends.  It is the work that logs its failure, not the run. -/
def Journal.finish (c : Catalog) (step : Nat) (outcome : Outcome) (j : Journal σ) : Journal σ :=
  let j := j.mark (.ofOutcome step outcome)
  match outcome with
  | .failed f => j.log (.stepFailed (c.name step) f.message)
  | .returned _ | .crashed _ => j

/-- What is said of a task that crashed. -/
def Run.crashReason (message : String) : String :=
  "task # panicked with message " ++ Text.quoted message

/-- The error of a task that is joined, unless its work returned. -/
def Catalog.joinError? (c : Catalog) (step : Nat) : Outcome → Option RunError
  | .returned _ => none
  | .failed f => some (.stepFailed (c.name step) f)
  | .crashed message => some (.notCompleted (c.name step) (Run.crashReason message))

namespace LayerState

/-- Spawns the task of the next step, or ends the layer for want of an argument. -/
def spawn? (c : Catalog) (steps : List Nat) (results : Members Value) (s : LayerState σ) :
    Option (LayerState σ) :=
  match s.error?, steps[s.tasks.length]? with
  | none, some i =>
    match c.argumentsFrom i results with
    | .ok args => some { s with tasks := s.tasks ++ [.queued args] }
    | .error e => some { s with error? := some e }
  | _, _ => none

def start? (crew : Crew σ) (steps : List Nat) (place : Nat) (s : LayerState σ) :
    Option (LayerState σ) :=
  match steps[place]?, s.tasks[place]? with
  | some i, some (.queued args) =>
    let (outcome, journal) := s.journal.call crew i args
    some { s with tasks := s.tasks.set place (.running outcome), journal }
  | _, _ => none

def finish? (c : Catalog) (steps : List Nat) (place : Nat) (s : LayerState σ) :
    Option (LayerState σ) :=
  match steps[place]?, s.tasks[place]? with
  | some i, some (.running outcome) =>
    some { s with
      tasks := s.tasks.set place (.ended outcome), journal := s.journal.finish c i outcome }
  | _, _ => none

/-- Joins a task whose work has ended, unless some are not spawned or there is an error. -/
def join? (c : Catalog) (steps : List Nat) (place : Nat) (s : LayerState σ) :
    Option (LayerState σ) :=
  match s.error?, steps[place]?, s.tasks[place]? with
  | none, some i, some (.ended outcome) =>
    if s.tasks.length = steps.length then
      some { s with
        tasks := s.tasks.set place (.joined outcome), error? := c.joinError? i outcome }
    else none
  | _, _, _ => none

/-- Calls off the tasks in the queue, after an error. -/
def abort? (s : LayerState σ) : Option (LayerState σ) :=
  match s.error? with
  | some _ => some { s with tasks := s.tasks.map TaskState.calledOff }
  | none => none

/-- The state after a move, if the move is possible. -/
def move? (c : Catalog) (crew : Crew σ) (steps : List Nat) (results : Members Value)
    (s : LayerState σ) : Move → Option (LayerState σ)
  | .spawn => s.spawn? c steps results
  | .start place => s.start? crew steps place
  | .finish place => s.finish? c steps place
  | .join place => s.join? c steps place
  | .abort => s.abort?

/-- Tries one move after another. -/
def follow (c : Catalog) (crew : Crew σ) (steps : List Nat) (results : Members Value) :
    List Move → LayerState σ → LayerState σ
  | [], s => s
  | move :: rest, s =>
    follow c crew steps results rest ((s.move? c crew steps results move).getD s)

/-- All tasks are joined, and there is no error. -/
def isDone (steps : List Nat) (s : LayerState σ) : Bool :=
  s.error?.isNone && s.tasks.length == steps.length && s.tasks.all TaskState.isJoined

/-- The results of the tasks that are joined, in the order of the layer. -/
def outputs (c : Catalog) (steps : List Nat) (s : LayerState σ) : List (String × Value) :=
  (steps.zip s.tasks).filterMap fun (i, task) => task.value?.map fun v => (c.name i, v)

end LayerState

namespace Run

/-- Runs a layer.  Its moves should let all tasks be joined, or the results of some are left out. -/
def layerTogether (c : Catalog) (crew : Crew σ) (moves : List Move) (steps : List Nat)
    (results : Members Value) (j : Journal σ) : Run σ (List (String × Value)) :=
  let last := LayerState.follow c crew steps results moves { journal := j }
  match last.error? with
  | some e => ⟨.error e, last.journal⟩
  | none => ⟨.ok (last.outputs c steps), last.journal⟩

/-- Runs layers, the first of which has the given index. -/
def layersTogetherFrom (c : Catalog) (crew : Crew σ) (schedule : Schedule) :
    Nat → List (List Nat) → Members Value → Journal σ → Run σ (List (List (String × Value)))
  | _, [], _, j => ⟨.ok [], j⟩
  | index, steps :: rest, results, j =>
    match layerTogether c crew (schedule index steps) steps results
        (j.log (.layerEntered index steps.length)) with
    | ⟨.error e, j⟩ => ⟨.error e, j⟩
    | ⟨.ok outputs, j⟩ =>
      match layersTogetherFrom c crew schedule (index + 1) rest (results.overlay outputs) j with
      | ⟨.error e, j⟩ => ⟨.error e, j⟩
      | ⟨.ok layers, j⟩ => ⟨.ok (outputs :: layers), j⟩

/-- Runs layers in order and the steps of each side by side, starting with the crew in a state. -/
def concurrent (c : Catalog) (crew : Crew σ) (schedule : Schedule) (layers : List (List Nat))
    (state : σ) : Run σ RunResult :=
  match layersTogetherFrom c crew schedule 0 layers [] { state } with
  | ⟨.ok layers, j⟩ => ⟨.ok { layers }, j⟩
  | ⟨.error e, j⟩ => ⟨.error e, j⟩

end Run

/-! ## All interleavings -/

/-- A run side by side under way: what the layers behind it published, and the layers that are
left, the first of which is at work. -/
structure RunState (σ : Type) where
  outputs : List (List (String × Value))
  results : Members Value
  left : List (List Nat)
  layer : LayerState σ

namespace RunState

/-- Enters the first of the layers that are left. -/
def enter (outputs : List (List (String × Value))) (results : Members Value)
    (left : List (List Nat)) (j : Journal σ) : RunState σ where
  outputs := outputs
  results := results
  left := left
  layer.journal := match left with
    | [] => j
    | steps :: _ => j.log (.layerEntered outputs.length steps.length)

/-- The state after a move in the layer at work. -/
def move? (c : Catalog) (crew : Crew σ) (s : RunState σ) (move : Move) : Option (RunState σ) :=
  match s.left with
  | [] => none
  | steps :: _ =>
    (s.layer.move? c crew steps s.results move).map fun layer => { s with layer }

/-- Publishes the results of the layer at work, when it is done, and enters the next one. -/
def advance? (c : Catalog) (s : RunState σ) : Option (RunState σ) :=
  match s.left with
  | [] => none
  | steps :: rest =>
    if s.layer.isDone steps then
      let outputs := s.layer.outputs c steps
      some (enter (s.outputs ++ [outputs]) (s.results.overlay outputs) rest s.layer.journal)
    else none

/-- What the run ended with. -/
def result? (s : RunState σ) : Option (Except RunError RunResult) :=
  match s.layer.error?, s.left with
  | some e, _ => some (.error e)
  | none, [] => some (.ok { layers := s.outputs })
  | none, _ :: _ => none

/-- The states that a run of layers side by side may come to. -/
inductive Reachable (c : Catalog) (crew : Crew σ) (layers : List (List Nat)) (state : σ) :
    RunState σ → Prop
  | entered : Reachable c crew layers state (enter [] [] layers { state })
  | moved {s next : RunState σ} {move : Move} (hreached : Reachable c crew layers state s)
      (hmove : s.move? c crew move = some next) : Reachable c crew layers state next
  | advanced {s next : RunState σ} (hreached : Reachable c crew layers state s)
      (hadvance : s.advance? c = some next) : Reachable c crew layers state next

end RunState

end WorkPlan

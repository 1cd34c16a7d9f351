import WorkPlan.Run.Basic

/-!
# Running one step after another

The steps run in the order of the layers.  Each result is available at once, also to later steps of
the same layer.  The first error ends the run.
-/

namespace WorkPlan

open Json

variable {σ : Type}

namespace Run

/-- Runs one step on the results so far. -/
def step (c : Catalog) (crew : Crew σ) (i : Nat) (results : Members Value) (j : Journal σ) :
    Run σ Value :=
  match c.argumentsFrom i results with
  | .error e => ⟨.error e, j⟩
  | .ok args =>
    let (outcome, j) := (j.log (.stepInvoked (c.name i) args.length)).call crew i args
    let j := j.mark (.ofOutcome i outcome)
    match outcome with
    | .returned v => ⟨.ok v, j⟩
    | .failed f => ⟨.error (.stepFailed (c.name i) f), j.log (.stepFailed (c.name i) f.message)⟩
    | .crashed message => ⟨.error (.crashed (c.name i) message), j⟩

/-- Runs the steps of a layer; gives back all results and those of the layer. -/
def layer (c : Catalog) (crew : Crew σ) :
    List Nat → Members Value → Journal σ → Run σ (Members Value × List (String × Value))
  | [], results, j => ⟨.ok (results, []), j⟩
  | i :: rest, results, j =>
    match step c crew i results j with
    | ⟨.error e, j⟩ => ⟨.error e, j⟩
    | ⟨.ok v, j⟩ =>
      match layer c crew rest (results.insert (c.name i) v) j with
      | ⟨.error e, j⟩ => ⟨.error e, j⟩
      | ⟨.ok (results, outputs), j⟩ => ⟨.ok (results, (c.name i, v) :: outputs), j⟩

/-- Runs layers, the first of which has the given index. -/
def layersFrom (c : Catalog) (crew : Crew σ) :
    Nat → List (List Nat) → Members Value → Journal σ → Run σ (List (List (String × Value)))
  | _, [], _, j => ⟨.ok [], j⟩
  | index, steps :: rest, results, j =>
    match layer c crew steps results (j.log (.layerEntered index steps.length)) with
    | ⟨.error e, j⟩ => ⟨.error e, j⟩
    | ⟨.ok (results, outputs), j⟩ =>
      match layersFrom c crew (index + 1) rest results j with
      | ⟨.error e, j⟩ => ⟨.error e, j⟩
      | ⟨.ok layers, j⟩ => ⟨.ok (outputs :: layers), j⟩

/-- Runs layers in order, starting with the crew in a state. -/
def sequential (c : Catalog) (crew : Crew σ) (layers : List (List Nat)) (state : σ) :
    Run σ RunResult :=
  match layersFrom c crew 0 layers [] { state } with
  | ⟨.ok layers, j⟩ => ⟨.ok { layers }, j⟩
  | ⟨.error e, j⟩ => ⟨.error e, j⟩

end Run

end WorkPlan

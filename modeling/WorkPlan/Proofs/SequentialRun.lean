import Mathlib.Tactic
import WorkPlan.Proofs.Staging
import WorkPlan.Run.Sequential

/-!
# Sequential runs

The steps of a staged layer find the same arguments before and after the others have
published their results, so a sequential run ends as the layers answer.  The journal tells
how far it came: the layers that were entered.
-/

namespace WorkPlan

open Json

variable {σ : Type}

/-! ## Layers that were entered -/

def Log.Event.entered? : Log.Event → Option Nat
  | .layerEntered index _ => some index
  | _ => none

namespace Journal

/-- The indices of the layers that were entered, in order. -/
def entered (j : Journal σ) : List Nat := j.events.filterMap Log.Event.entered?

@[simp] theorem entered_mark (j : Journal σ) (m : Mark) : (j.mark m).entered = j.entered := rfl

@[simp] theorem entered_log (j : Journal σ) (event : Log.Event) :
    (j.log event).entered = j.entered ++ event.entered?.toList := by
  unfold entered log
  rw [List.filterMap_append]
  cases hentered : event.entered? <;> simp [hentered]

@[simp] theorem entered_call (crew : Crew σ) (step : Nat) (args : List Value) (j : Journal σ) :
    (j.call crew step args).2.entered = j.entered := rfl

@[simp] theorem state_log (j : Journal σ) (event : Log.Event) : (j.log event).state = j.state :=
  rfl

@[simp] theorem state_mark (j : Journal σ) (m : Mark) : (j.mark m).state = j.state := rfl

end Journal

namespace Run

variable {c : Catalog} {crew : Crew σ} {work : Nat → List Value → Except Failure Value}

/-! ## One step -/

theorem step_of_arguments
    {i : Nat} {results : Members Value} {args : List Value}
    (hargs : c.argumentsFrom i results = .ok args) (crew : Crew σ) (j : Journal σ) :
    (step c crew i results j).journal.state = (crew i args j.state).2 ∧
      (step c crew i results j).result =
        match (crew i args j.state).1 with
        | .returned v => .ok v
        | .failed f => .error (.stepFailed (c.name i) f)
        | .crashed message => .error (.crashed (c.name i) message) := by
  simp only [step, hargs, Journal.call, Journal.state_log]
  cases (crew i args j.state).1 <;> simp

@[simp] theorem step_entered (c : Catalog) (crew : Crew σ) (i : Nat) (results : Members Value)
    (j : Journal σ) :
    (step c crew i results j).journal.entered = j.entered := by
  unfold step
  cases c.argumentsFrom i results with
  | error e => rfl
  | ok args =>
      simp only
      cases (Journal.call crew i args (j.log (.stepInvoked (c.name i) args.length))).1 <;>
        simp [Log.Event.entered?]

theorem step_result
    {i : Nat} (hcrew : ∀ args state, (crew i args state).1 = .ofExcept (work i args))
    (results : Members Value) (j : Journal σ) :
    (step c crew i results j).result = c.answer work results i := by
  cases hargs : c.argumentsFrom i results with
  | error e => simp [step, Catalog.answer, hargs]
  | ok args =>
      rw [(step_of_arguments hargs crew j).2, Catalog.answer_of_arguments hargs, hcrew]
      cases work i args <;> rfl

/-! ## One layer -/

theorem layer_cons_error
    {i : Nat} {results : Members Value} {j : Journal σ} {e : RunError}
    (hstep : (step c crew i results j).result = .error e) (steps : List Nat) :
    layer c crew (i :: steps) results j = ⟨.error e, (step c crew i results j).journal⟩ := by
  unfold layer
  rcases hrun : step c crew i results j with ⟨result, called⟩
  rw [hrun] at hstep
  cases hstep
  rfl

theorem layer_cons_ok
    {i : Nat} {results : Members Value} {j : Journal σ} {v : Value}
    (hstep : (step c crew i results j).result = .ok v) (steps : List Nat) :
    layer c crew (i :: steps) results j =
      ⟨(layer c crew steps (results.insert (c.name i) v)
          (step c crew i results j).journal).result.map
            fun ended => (ended.1, (c.name i, v) :: ended.2),
        (layer c crew steps (results.insert (c.name i) v)
          (step c crew i results j).journal).journal⟩ := by
  rw [layer]
  rcases hrun : step c crew i results j with ⟨result, called⟩
  rw [hrun] at hstep
  cases hstep
  simp only
  rcases layer c crew steps (results.insert (c.name i) v) called with ⟨_ | ⟨_, _⟩, _⟩ <;> rfl

@[simp] theorem layer_entered (c : Catalog) (crew : Crew σ) (steps : List Nat)
    (results : Members Value) (j : Journal σ) :
    (layer c crew steps results j).journal.entered = j.entered := by
  induction steps generalizing results j with
  | nil => rfl
  | cons i steps ih =>
      cases hstep : (step c crew i results j).result with
      | error e => rw [layer_cons_error hstep, step_entered]
      | ok v => rw [layer_cons_ok hstep, ih, step_entered]

/-- A layer publishes each result at once; none of its steps looks at it. -/
theorem layer_result
    {steps : List Nat} (hcrew : crew.Computes work steps)
    (hapart : ∀ i ∈ steps, ∀ k ∈ steps, c.name k ∉ c.sources i)
    (results : Members Value) (j : Journal σ) :
    (layer c crew steps results j).result =
      (c.answers work results steps).map fun outputs => (results.overlay outputs, outputs) := by
  induction steps generalizing results j with
  | nil => rfl
  | cons i steps ih =>
      have hfirst := step_result (c := c) (hcrew i (by simp)) results j
      cases hanswer : c.answer work results i with
      | error e =>
          rw [layer_cons_error (hfirst.trans hanswer), Catalog.answers_cons_error hanswer]
          rfl
      | ok v =>
          have hsame : c.answers work (results.insert (c.name i) v) steps =
              c.answers work results steps := by
            apply Catalog.answers_congr
            intro k hk name hname
            have hne : name ≠ c.name i := by
              rintro rfl
              exact hapart k (by simp [hk]) i (by simp) hname
            rw [Members.get?_insert, if_neg hne]
          have hrest := ih (fun k hk => hcrew k (by simp [hk]))
            (fun k hk l hl => hapart k (by simp [hk]) l (by simp [hl]))
            (results.insert (c.name i) v) (step c crew i results j).journal
          rw [layer_cons_ok (hfirst.trans hanswer), Catalog.answers_cons_ok hanswer, hrest, hsame]
          cases c.answers work results steps <;> rfl

theorem layer_ok
    {steps : List Nat} {results results' : Members Value} {outputs : List (String × Value)}
    {j : Journal σ} (hlayer : (layer c crew steps results j).result = .ok (results', outputs)) :
    results' = results.overlay outputs ∧ outputs.map Prod.fst = steps.map c.name := by
  induction steps generalizing results outputs j with
  | nil =>
      cases hlayer
      exact ⟨rfl, rfl⟩
  | cons i steps ih =>
      cases hstep : (step c crew i results j).result with
      | error e =>
          rw [layer_cons_error hstep] at hlayer
          cases hlayer
      | ok v =>
          rw [layer_cons_ok hstep] at hlayer
          obtain ⟨⟨results'', others⟩, hothers, hended⟩ := Except.map_eq_ok_iff.mp hlayer
          cases hended
          obtain ⟨hresults, hnames⟩ := ih hothers
          exact ⟨hresults, by simp [hnames]⟩

theorem layer_ne_missingResult
    {steps : List Nat} {results : Members Value} {j : Journal σ}
    (hfound : ∀ i ∈ steps, ∀ name ∈ c.sources i, (results.get? name).isSome)
    (name dependency : String) :
    (layer c crew steps results j).result ≠ .error (.missingResult name dependency) := by
  induction steps generalizing results j with
  | nil => exact nofun
  | cons i steps ih =>
      obtain ⟨args, hargs⟩ := Catalog.exists_arguments (hfound i (by simp))
      have hends := (step_of_arguments hargs crew j).2
      cases hstep : (step c crew i results j).result with
      | error e =>
          rw [layer_cons_error hstep]
          rw [hstep] at hends
          rintro ⟨⟩
          cases houtcome : (crew i args j.state).1 <;> simp [houtcome] at hends
      | ok v =>
          have hlater : ∀ k ∈ steps, ∀ source ∈ c.sources k,
              ((results.insert (c.name i) v).get? source).isSome := by
            intro k hk source hsource
            rw [Members.get?_insert]
            split
            · rfl
            · exact hfound k (by simp [hk]) source hsource
          rw [layer_cons_ok hstep]
          intro hmissing
          exact ih hlater (Except.map_eq_error_iff.mp hmissing)

/-! ## All layers -/

theorem layer_result_of_staged
    {known : List String} {steps : List Nat} {rest : List (List Nat)}
    (hcrew : crew.Computes work (steps :: rest).flatten)
    (hstaged : c.Staged known (steps :: rest)) (results : Members Value) (j : Journal σ) :
    (layer c crew steps results j).result =
      (c.answers work results steps).map fun outputs => (results.overlay outputs, outputs) :=
  layer_result hcrew.head (fun _ hi _ hk => hstaged.name_notMem_sources hi hk) results j

theorem layersFrom_cons_error
    {index : Nat} {steps : List Nat} {results : Members Value} {j : Journal σ} {e : RunError}
    (hlayer : (layer c crew steps results
      (j.log (.layerEntered index steps.length))).result = .error e)
    (rest : List (List Nat)) :
    layersFrom c crew index (steps :: rest) results j =
      ⟨.error e, (layer c crew steps results
        (j.log (.layerEntered index steps.length))).journal⟩ := by
  unfold layersFrom
  rcases hrun : layer c crew steps results (j.log (.layerEntered index steps.length)) with
    ⟨result, called⟩
  rw [hrun] at hlayer
  cases hlayer
  rfl

theorem layersFrom_cons_ok
    {index : Nat} {steps : List Nat} {results results' : Members Value} {j : Journal σ}
    {outputs : List (String × Value)}
    (hlayer : (layer c crew steps results
      (j.log (.layerEntered index steps.length))).result = .ok (results', outputs))
    (rest : List (List Nat)) :
    layersFrom c crew index (steps :: rest) results j =
      ⟨(layersFrom c crew (index + 1) rest results' (layer c crew steps results
          (j.log (.layerEntered index steps.length))).journal).result.map (outputs :: ·),
        (layersFrom c crew (index + 1) rest results' (layer c crew steps results
          (j.log (.layerEntered index steps.length))).journal).journal⟩ := by
  rw [layersFrom]
  rcases hrun : layer c crew steps results (j.log (.layerEntered index steps.length)) with
    ⟨result, called⟩
  rw [hrun] at hlayer
  cases hlayer
  simp only
  rcases layersFrom c crew (index + 1) rest results' called with ⟨_ | _, _⟩ <;> rfl

theorem layersFrom_result
    {layers : List (List Nat)} {known : List String} {results : Members Value}
    (hcrew : crew.Computes work layers.flatten) (hstaged : c.Staged known layers)
    (index : Nat) (j : Journal σ) :
    (layersFrom c crew index layers results j).result =
      c.layerAnswers work results layers := by
  induction layers generalizing known results index j with
  | nil => rfl
  | cons steps rest ih =>
      have hlayer := layer_result_of_staged hcrew hstaged results
        (j.log (.layerEntered index steps.length))
      cases hanswers : c.answers work results steps with
      | error e =>
          rw [hanswers] at hlayer
          rw [layersFrom_cons_error hlayer, Catalog.layerAnswers_cons_error hanswers]
      | ok outputs =>
          rw [hanswers] at hlayer
          rw [layersFrom_cons_ok hlayer, Catalog.layerAnswers_cons_ok hanswers]
          exact congrArg (Except.map (outputs :: ·))
            (ih hcrew.tail hstaged.2 (index + 1) _)

/-- Whatever the work does, in staged layers no step misses a result. -/
theorem layersFrom_ne_missingResult
    {layers : List (List Nat)} {known : List String} {results : Members Value}
    (hstaged : c.Staged known layers) (hcovers : results.Covers known)
    (index : Nat) (j : Journal σ) (name dependency : String) :
    (layersFrom c crew index layers results j).result ≠
      .error (.missingResult name dependency) := by
  induction layers generalizing known results index j with
  | nil => exact nofun
  | cons steps rest ih =>
      have hfound : ∀ i ∈ steps, ∀ source ∈ c.sources i, (results.get? source).isSome :=
        fun i hi source hsource => (hcovers source).mpr ((hstaged.1 i hi).2 source hsource)
      cases hlayer : (layer c crew steps results
          (j.log (.layerEntered index steps.length))).result with
      | error e =>
          rw [layersFrom_cons_error hlayer]
          intro hmissing
          cases hmissing
          exact layer_ne_missingResult hfound name dependency hlayer
      | ok ended =>
          obtain ⟨results', outputs⟩ := ended
          obtain ⟨rfl, hnames⟩ := layer_ok hlayer
          have hcovers' := hcovers.overlay outputs
          rw [hnames] at hcovers'
          rw [layersFrom_cons_ok hlayer]
          intro hmissing
          exact ih hstaged.2 hcovers' (index + 1) _ (Except.map_eq_error_iff.mp hmissing)

theorem sequential_result_eq
    (c : Catalog) (crew : Crew σ) (layers : List (List Nat)) (state : σ) :
    (sequential c crew layers state).result =
      (layersFrom c crew 0 layers [] { state }).result.map fun layers => { layers } := by
  unfold sequential
  rcases layersFrom c crew 0 layers [] { state } with ⟨_ | _, _⟩ <;> rfl

theorem sequential_journal
    (c : Catalog) (crew : Crew σ) (layers : List (List Nat)) (state : σ) :
    (sequential c crew layers state).journal =
      (layersFrom c crew 0 layers [] { state }).journal := by
  unfold sequential
  rcases layersFrom c crew 0 layers [] { state } with ⟨_ | _, _⟩ <;> rfl

theorem sequential_result
    {layers : List (List Nat)}
    (hcrew : crew.Computes work layers.flatten) (hstaged : c.Staged [] layers) (state : σ) :
    (sequential c crew layers state).result =
      (c.layerAnswers work [] layers).map fun layers => { layers } := by
  rw [sequential_result_eq, layersFrom_result hcrew hstaged 0 { state }]

end Run

/-! ## Runs of a plan -/

namespace Plan

variable {c : Catalog} {p : Plan} {crew : Crew σ}

@[simp] theorem report_state (before after : Log.Event) (r : Run σ RunResult) :
    (report before after r).journal.state = r.journal.state := rfl

@[simp] theorem report_trace (before after : Log.Event) (r : Run σ RunResult) :
    (report before after r).journal.trace = r.journal.trace := rfl

theorem report_entered
    {before after : Log.Event} (hbefore : before.entered? = none)
    (hafter : after.entered? = none) (r : Run σ RunResult) :
    (report before after r).journal.entered = r.journal.entered := by
  unfold report Journal.entered
  cases r.result <;> simp [hbefore, hafter]

theorem run_entered (s : σ) :
    (p.run c crew s).journal.entered =
      (Run.layersFrom c crew 0 p.layers [] { state := s }).journal.entered := by
  rw [run, report_entered rfl rfl, Run.sequential_journal]

theorem run_state (s : σ) :
    (p.run c crew s).journal.state =
      (Run.layersFrom c crew 0 p.layers [] { state := s }).journal.state := by
  rw [run, report_state, Run.sequential_journal]

theorem run_trace (s : σ) :
    (p.run c crew s).journal.trace =
      (Run.layersFrom c crew 0 p.layers [] { state := s }).journal.trace := by
  rw [run, report_trace, Run.sequential_journal]

theorem run_result (s : σ) :
    (p.run c crew s).result =
      (Run.layersFrom c crew 0 p.layers [] { state := s }).result.map
        fun layers => { layers } :=
  Run.sequential_result_eq c crew p.layers s

theorem run_result_of_staged
    {work : Nat → List Value → Except Failure Value} (hcrew : crew.Computes work p.steps)
    (hstaged : c.Staged [] p.layers) (s : σ) :
    (p.run c crew s).result =
      (c.layerAnswers work [] p.layers).map fun layers => { layers } :=
  Run.sequential_result hcrew hstaged s

end Plan

end WorkPlan

import Mathlib.Tactic
import WorkPlan.Plan
import WorkPlan.Proofs.SideBySide

/-!
# Runs one after another and side by side

Steps of one layer do not see each other's results, so it does not matter to them whether
these are published at once or with the whole layer.  Both ways to run a plan have the same
results then.  A run that fails stops in the first layer that has no answer, and there the
order in which the tasks are joined chooses among its failures.
-/

namespace WorkPlan

open Json

variable {σ : Type}

/-! ## The layer that has no answer -/

/-- The steps of the layer at an index are the first without an answer: the layers before
it have these outputs, and on them the layer ends with this error. -/
inductive Catalog.StopsAt (c : Catalog) (work : Nat → List Value → Except Failure Value) :
    Members Value → List (List Nat) → Nat → List Nat → List (List (String × Value)) →
      RunError → Prop
  | here {results : Members Value} {steps : List Nat} {rest : List (List Nat)} {e : RunError}
      (hanswers : c.answers work results steps = .error e) :
      StopsAt c work results (steps :: rest) 0 steps [] e
  | later {results : Members Value} {first steps : List Nat} {rest : List (List Nat)}
      {k : Nat} {outputs : List (String × Value)} {others : List (List (String × Value))}
      {e : RunError} (hanswers : c.answers work results first = .ok outputs)
      (hstops : StopsAt c work (results.overlay outputs) rest k steps others e) :
      StopsAt c work results (first :: rest) (k + 1) steps (outputs :: others) e

namespace Catalog

variable {c : Catalog} {work : Nat → List Value → Except Failure Value}
  {results : Members Value} {layers : List (List Nat)} {k : Nat} {steps : List Nat}
  {outputs : List (List (String × Value))} {e : RunError}

theorem exists_stopsAt (herror : c.layerAnswers work results layers = .error e) :
    ∃ k steps outputs, c.StopsAt work results layers k steps outputs e := by
  induction layers generalizing results with
  | nil => cases herror
  | cons first rest ih =>
      cases hanswers : c.answers work results first with
      | error e' =>
          rw [layerAnswers_cons_error hanswers] at herror
          cases herror
          exact ⟨0, first, [], .here hanswers⟩
      | ok published =>
          rw [layerAnswers_cons_ok hanswers, Except.map_eq_error_iff] at herror
          obtain ⟨k, steps, others, hstops⟩ := ih herror
          exact ⟨k + 1, steps, published :: others, .later hanswers hstops⟩

theorem StopsAt.layer_eq (hstops : c.StopsAt work results layers k steps outputs e) :
    layers[k]? = some steps := by
  induction hstops with
  | here _ => rfl
  | later _ _ ih => simpa using ih

theorem StopsAt.layerAnswers_take (hstops : c.StopsAt work results layers k steps outputs e) :
    c.layerAnswers work results (layers.take k) = .ok outputs := by
  induction hstops with
  | here _ => rfl
  | later hanswers _ ih =>
      rw [List.take_succ_cons, layerAnswers_cons_ok hanswers, ih]
      rfl

theorem StopsAt.answers_eq (hstops : c.StopsAt work results layers k steps outputs e) :
    c.answers work (results.overlay outputs.flatten) steps = .error e := by
  induction hstops with
  | here hanswers => exact hanswers
  | later _ _ ih => simpa [Members.overlay_append] using ih

end Catalog

/-! ## Layers side by side -/

namespace Run

variable {c : Catalog} {crew : Crew σ} {work : Nat → List Value → Except Failure Value}
  {schedule : Schedule} {results : Members Value} {layers : List (List Nat)}
  {known : List String}

theorem layersTogetherFrom_cons_error
    {index : Nat} {steps : List Nat} {j : Journal σ} {e : RunError}
    (hlayer : (layerTogether c crew (schedule index steps) steps results
      (j.log (.layerEntered index steps.length))).result = .error e)
    (rest : List (List Nat)) :
    layersTogetherFrom c crew schedule index (steps :: rest) results j =
      ⟨.error e, (layerTogether c crew (schedule index steps) steps results
        (j.log (.layerEntered index steps.length))).journal⟩ := by
  unfold layersTogetherFrom
  rcases hrun : layerTogether c crew (schedule index steps) steps results
    (j.log (.layerEntered index steps.length)) with ⟨result, called⟩
  rw [hrun] at hlayer
  cases hlayer
  rfl

theorem layersTogetherFrom_cons_ok
    {index : Nat} {steps : List Nat} {j : Journal σ} {outputs : List (String × Value)}
    (hlayer : (layerTogether c crew (schedule index steps) steps results
      (j.log (.layerEntered index steps.length))).result = .ok outputs)
    (rest : List (List Nat)) :
    layersTogetherFrom c crew schedule index (steps :: rest) results j =
      ⟨(layersTogetherFrom c crew schedule (index + 1) rest (results.overlay outputs)
          (layerTogether c crew (schedule index steps) steps results
            (j.log (.layerEntered index steps.length))).journal).result.map (outputs :: ·),
        (layersTogetherFrom c crew schedule (index + 1) rest (results.overlay outputs)
          (layerTogether c crew (schedule index steps) steps results
            (j.log (.layerEntered index steps.length))).journal).journal⟩ := by
  rw [layersTogetherFrom]
  rcases hrun : layerTogether c crew (schedule index steps) steps results
    (j.log (.layerEntered index steps.length)) with ⟨result, called⟩
  rw [hrun] at hlayer
  cases hlayer
  simp only
  rcases layersTogetherFrom c crew schedule (index + 1) rest (results.overlay outputs) called
    with ⟨_ | _, _⟩ <;> rfl

theorem layersTogetherFrom_ok
    {outputs : List (List (String × Value))} {index : Nat}
    (hanswers : c.layerAnswers work results layers = .ok outputs)
    (hcrew : crew.Computes work layers.flatten) (hstaged : c.Staged known layers)
    (hcovers : results.Covers known)
    (hschedule : schedule.CompletesFrom index layers) (j : Journal σ) :
    (layersTogetherFrom c crew schedule index layers results j).result = .ok outputs := by
  induction layers generalizing known results outputs index j with
  | nil => exact hanswers
  | cons steps rest ih =>
      obtain ⟨published, others, rfl, hfirst, hrest⟩ :=
        Catalog.layerAnswers_cons_eq_ok_iff.mp hanswers
      have hlayer := layerTogether_ok hfirst hcrew.head
        (fun i hi => hstaged.exists_arguments hi hcovers) hschedule.head
        (j.log (.layerEntered index steps.length))
      rw [layersTogetherFrom_cons_ok hlayer, ih hrest hcrew.tail hstaged.2
        (hcovers.answers hfirst) hschedule.tail]
      rfl

/-- Side by side, layers stop at the one without an answer, with the failure that is met
first in it. -/
theorem layersTogetherFrom_stopsAt
    {index k : Nat} {steps : List Nat} {outputs : List (List (String × Value))}
    {e : RunError} (hstops : c.StopsAt work results layers k steps outputs e)
    (hcrew : crew.Computes work layers.flatten) (hstaged : c.Staged known layers)
    (hcovers : results.Covers known) (hschedule : schedule.CompletesFrom index layers)
    (j : Journal σ) :
    ∃ e', (layersTogetherFrom c crew schedule index layers results j).result = .error e' ∧
      (completions steps.length (schedule (index + k) steps)).findSome?
        (c.failureAt? work (results.overlay outputs.flatten) steps) = some e' ∧
      (layersTogetherFrom c crew schedule index layers results j).journal.entered =
        j.entered ++ List.range' index (k + 1) := by
  induction hstops generalizing known index j with
  | here hanswers =>
      obtain ⟨e', herror, hfirst⟩ := layerTogether_error hanswers
        hcrew.head (fun i hi => hstaged.exists_arguments hi hcovers)
        hschedule.head (j.log (.layerEntered index _))
      rw [layersTogetherFrom_cons_error herror]
      exact ⟨e', rfl, by simpa using hfirst, by simp [Log.Event.entered?]⟩
  | @later _ first _ _ k published _ _ hanswers hstops ih =>
      have hlayer := layerTogether_ok hanswers hcrew.head
        (fun i hi => hstaged.exists_arguments hi hcovers) hschedule.head
        (j.log (.layerEntered index first.length))
      obtain ⟨e', herror, hfirst, hentered⟩ := ih hcrew.tail
        hstaged.2 (hcovers.answers hanswers) hschedule.tail
        (layerTogether c crew (schedule index first) first _
          (j.log (.layerEntered index first.length))).journal
      rw [layersTogetherFrom_cons_ok hlayer]
      refine ⟨e', by rw [herror]; rfl, ?_, ?_⟩
      · rw [List.flatten_cons, Members.overlay_append]
        rwa [show index + (k + 1) = index + 1 + k by omega]
      · rw [hentered]
        simp [Log.Event.entered?, List.range'_succ]

theorem layersFrom_entered
    {index k : Nat} {steps : List Nat} {outputs : List (List (String × Value))}
    {e : RunError} (hstops : c.StopsAt work results layers k steps outputs e)
    (hcrew : crew.Computes work layers.flatten) (hstaged : c.Staged known layers)
    (j : Journal σ) :
    (layersFrom c crew index layers results j).journal.entered =
      j.entered ++ List.range' index (k + 1) := by
  induction hstops generalizing known index j with
  | @here results steps _ _ hanswers =>
      have hlayer := layer_result_of_staged hcrew hstaged results
        (j.log (.layerEntered index steps.length))
      rw [hanswers] at hlayer
      rw [layersFrom_cons_error hlayer]
      simp [Log.Event.entered?]
  | @later results first _ _ k _ _ _ hanswers hstops ih =>
      have hlayer := layer_result_of_staged hcrew hstaged results
        (j.log (.layerEntered index first.length))
      rw [hanswers] at hlayer
      rw [layersFrom_cons_ok hlayer, ih hcrew.tail hstaged.2]
      simp [Log.Event.entered?, List.range'_succ]

end Run

/-! ## The first task to fail -/

namespace Catalog

variable {c : Catalog} {work : Nat → List Value → Except Failure Value}
  {results : Members Value} {steps : List Nat} {known : List String}
  {rest : List (List Nat)}

/-- The step has the arguments, whatever results its layer has published. -/
def Given
    (c : Catalog) (results : Members Value) (steps : List Nat) (i : Nat)
    (args : List Value) : Prop :=
  ∀ published : List (String × Value), (∀ entry ∈ published, entry.1 ∈ steps.map c.name) →
    c.argumentsFrom i (results.overlay published) = .ok args

/-- The error is that of the first task to be joined with one: the work of its step fails on
the arguments that are given, and the work of all tasks that are joined before has values. -/
def FirstToFail
    (c : Catalog) (work : Nat → List Value → Except Failure Value)
    (results : Members Value) (steps : List Nat) (moves : List Move) (e : RunError) : Prop :=
  ∃ before place after i args failure,
    completions steps.length moves = before ++ place :: after ∧ steps[place]? = some i ∧
    c.Given results steps i args ∧ work i args = .error failure ∧
    e = .stepFailed (c.name i) failure ∧
    ∀ other ∈ before, ∀ k, steps[other]? = some k →
      ∃ args v, c.Given results steps k args ∧ work k args = .ok v

theorem Given.argumentsFrom_eq
    {i : Nat} {args : List Value} (hgiven : c.Given results steps i args) :
    c.argumentsFrom i results = .ok args :=
  hgiven [] (by simp)

theorem Staged.exists_given
    (hstaged : c.Staged known (steps :: rest)) (hcovers : results.Covers known)
    {i : Nat} (hi : i ∈ steps) :
    ∃ args, c.Given results steps i args := by
  obtain ⟨args, hargs⟩ := hstaged.exists_arguments hi hcovers
  refine ⟨args, fun published hpublished => ?_⟩
  rw [← hargs]
  apply arguments_congr
  intro name hname
  apply Members.get?_overlay_of_notMem
  intro hmem
  obtain ⟨entry, hentry, rfl⟩ := List.mem_map.mp hmem
  obtain ⟨k, hk, hsame⟩ := List.mem_map.mp (hpublished entry hentry)
  exact hstaged.name_notMem_sources hi hk (hsame ▸ hname)

theorem Staged.firstToFail
    {moves : List Move} {e : RunError} (hstaged : c.Staged known (steps :: rest))
    (hcovers : results.Covers known)
    (hfirst : (completions steps.length moves).findSome? (c.failureAt? work results steps) = some e) :
    c.FirstToFail work results steps moves e := by
  obtain ⟨before, place, after, hsplit, hfails, hbefore⟩ :=
    List.findSome?_eq_some_iff.mp hfirst
  obtain ⟨i, hstep, hfailure⟩ := Option.bind_eq_some_iff.mp hfails
  obtain ⟨args, hgiven⟩ := hstaged.exists_given hcovers (List.mem_of_getElem? hstep)
  rw [failure?_eq_some_iff, answer_of_arguments hgiven.argumentsFrom_eq] at hfailure
  cases hwork : work i args with
  | ok v =>
      rw [hwork] at hfailure
      cases hfailure
  | error failure =>
      rw [hwork] at hfailure
      cases hfailure
      refine ⟨before, place, after, i, args, failure, hsplit, hstep, hgiven, hwork, rfl, ?_⟩
      intro other hother k hk
      obtain ⟨args', hgiven'⟩ := hstaged.exists_given hcovers (List.mem_of_getElem? hk)
      have hvalue := hbefore other hother
      rw [failureAt?, hk, Option.bind_some, failure?_eq_none_iff,
        answer_of_arguments hgiven'.argumentsFrom_eq] at hvalue
      obtain ⟨v, hv⟩ := hvalue
      refine ⟨args', v, hgiven', ?_⟩
      cases hwork' : work k args' with
      | ok w =>
          rw [hwork'] at hv
          cases hv
          rfl
      | error failure' =>
          rw [hwork'] at hv
          cases hv

/-- Among the places in their own order the first failure is that of the first step to
fail. -/
theorem findSome?_range_failureAt?
    (c : Catalog) (work : Nat → List Value → Except Failure Value)
    (results : Members Value) (steps : List Nat) :
    (List.range steps.length).findSome? (c.failureAt? work results steps) =
      steps.findSome? (c.failure? work results) := by
  induction steps with
  | nil => rfl
  | cons i steps ih =>
      rw [List.length_cons, List.range_succ_eq_map, List.findSome?_cons, List.findSome?_cons,
        List.findSome?_map, ← ih]
      rfl

theorem StopsAt.exists_staged
    {layers : List (List Nat)} {k : Nat} {outputs : List (List (String × Value))}
    {e : RunError} (hstops : c.StopsAt work results layers k steps outputs e)
    (hstaged : c.Staged known layers) (hcovers : results.Covers known) :
    ∃ known' rest', c.Staged known' (steps :: rest') ∧
      Members.Covers (results.overlay outputs.flatten) known' := by
  induction hstops generalizing known with
  | here _ => exact ⟨known, _, hstaged, hcovers⟩
  | later hanswers _ ih =>
      rw [List.flatten_cons, Members.overlay_append]
      exact ih hstaged.2 (hcovers.answers hanswers)

end Catalog

/-! ## Whole runs -/

theorem Run.concurrent_journal
    (c : Catalog) (crew : Crew σ) (schedule : Schedule) (layers : List (List Nat))
    (state : σ) :
    (concurrent c crew schedule layers state).journal =
      (layersTogetherFrom c crew schedule 0 layers [] { state }).journal := by
  unfold concurrent
  rcases layersTogetherFrom c crew schedule 0 layers [] { state } with ⟨_ | _, _⟩ <;> rfl

theorem Run.concurrent_result_eq
    (c : Catalog) (crew : Crew σ) (schedule : Schedule) (layers : List (List Nat))
    (state : σ) :
    (concurrent c crew schedule layers state).result =
      (layersTogetherFrom c crew schedule 0 layers [] { state }).result.map
        fun layers => { layers } := by
  unfold concurrent
  rcases layersTogetherFrom c crew schedule 0 layers [] { state } with ⟨_ | _, _⟩ <;> rfl

namespace Plan

variable {c : Catalog} {p : Plan} {crew : Crew σ}
  {work : Nat → List Value → Except Failure Value} {schedule : Schedule}

theorem runConcurrently_entered (s : σ) :
    (p.runConcurrently c crew schedule s).journal.entered =
      (Run.layersTogetherFrom c crew schedule 0 p.layers [] { state := s }).journal.entered := by
  rw [runConcurrently, report_entered rfl rfl, Run.concurrent_journal]

theorem runConcurrently_trace (s : σ) :
    (p.runConcurrently c crew schedule s).journal.trace =
      (Run.layersTogetherFrom c crew schedule 0 p.layers [] { state := s }).journal.trace := by
  rw [runConcurrently, report_trace, Run.concurrent_journal]

theorem runConcurrently_result (s : σ) :
    (p.runConcurrently c crew schedule s).result =
      (Run.layersTogetherFrom c crew schedule 0 p.layers [] { state := s }).result.map
        fun layers => { layers } :=
  Run.concurrent_result_eq c crew schedule p.layers s

/-- Both runs of the plan fail, and in the layer at the index. -/
structure StopTogether
    (c : Catalog) (p : Plan) (crew : Crew σ) (work : Nat → List Value → Except Failure Value)
    (schedule : Schedule) (s₁ s₂ : σ) (k : Nat) (e e' : RunError) : Prop where
  run_error : (p.run c crew s₁).result = .error e
  together_error : (p.runConcurrently c crew schedule s₂).result = .error e'
  run_layers : (p.run c crew s₁).journal.entered = List.range (k + 1)
  together_layers :
    (p.runConcurrently c crew schedule s₂).journal.entered = List.range (k + 1)
  firstToFail : ∃ steps before, p.layers[k]? = some steps ∧
    (Run.sequential c crew (p.layers.take k) s₁).result = .ok before ∧
    c.FirstToFail work before.outputs steps (schedule k steps) e' ∧
    (completions steps.length (schedule k steps) = List.range steps.length → e' = e)

theorem stopTogether
    {k : Nat} {steps : List Nat} {outputs : List (List (String × Value))} {e : RunError}
    (hstops : c.StopsAt work [] p.layers k steps outputs e)
    (hcrew : crew.Computes work p.steps) (hstaged : c.Staged [] p.layers)
    (hschedule : schedule.Completes p.layers) (s₁ s₂ : σ)
    (herror : (p.run c crew s₁).result = .error e) :
    ∃ e', p.StopTogether c crew work schedule s₁ s₂ k e e' := by
  obtain ⟨e', htogether, hfirst, hentered⟩ := Run.layersTogetherFrom_stopsAt hstops hcrew hstaged
    Members.covers_nil hschedule.from_zero { state := s₂ }
  rw [Nat.zero_add] at hfirst
  obtain ⟨known, rest, hstaged', hcovers⟩ := hstops.exists_staged hstaged Members.covers_nil
  refine ⟨e', herror, ?_, ?_, ?_, steps, { layers := outputs }, hstops.layer_eq, ?_,
    hstaged'.firstToFail hcovers hfirst, ?_⟩
  · rw [runConcurrently_result, htogether]
    rfl
  · rw [run_entered, Run.layersFrom_entered hstops hcrew hstaged, List.range_eq_range']
    rfl
  · rw [runConcurrently_entered, hentered, List.range_eq_range']
    rfl
  · have hcrew' : crew.Computes work (p.layers.take k).flatten := fun i hi =>
      hcrew i ((List.take_sublist k p.layers).flatten.subset hi)
    rw [Run.sequential_result hcrew' (hstaged.take k), hstops.layerAnswers_take]
    rfl
  · intro horder
    have herror' := Catalog.answers_eq_error_iff.mp hstops.answers_eq
    rw [horder, Catalog.findSome?_range_failureAt?, herror'] at hfirst
    exact (Option.some.inj hfirst).symm

theorem end_together
    {name : String} {roots : List Nat} (hplan : Plan.build c name roots = .ok p)
    (hcrew : crew.Computes work p.steps) (hschedule : schedule.Completes p.layers)
    (s₁ s₂ : σ) :
    (∃ r, (p.run c crew s₁).result = .ok r ∧
      (p.runConcurrently c crew schedule s₂).result = .ok r ∧
      r.layers.map (·.map Prod.fst) = p.layers.map (·.map c.name)) ∨
    ∃ k e e', p.StopTogether c crew work schedule s₁ s₂ k e e' := by
  have hstaged := Plan.build_staged hplan
  have hrun := run_result_of_staged hcrew hstaged s₁
  cases hanswers : c.layerAnswers work [] p.layers with
  | ok outputs =>
      have htogether := Run.layersTogetherFrom_ok hanswers hcrew hstaged Members.covers_nil
        hschedule.from_zero { state := s₂ }
      rw [hanswers] at hrun
      refine Or.inl ⟨{ layers := outputs }, hrun, ?_, Catalog.layerAnswers_names hanswers⟩
      rw [runConcurrently_result, htogether]
      rfl
  | error e =>
      obtain ⟨k, steps, outputs, hstops⟩ := Catalog.exists_stopsAt hanswers
      rw [hanswers] at hrun
      obtain ⟨e', hstop⟩ := stopTogether hstops hcrew hstaged hschedule s₁ s₂ hrun
      exact Or.inr ⟨k, e, e', hstop⟩

/-- Side by side with every task started after the one before it is joined, a run ends
as one after another. -/
theorem runConcurrently_inOrder
    {name : String} {roots : List Nat} (hplan : Plan.build c name roots = .ok p)
    (hcrew : crew.Computes work p.steps) (s₁ s₂ : σ) :
    (p.runConcurrently c crew .inOrder s₂).result = (p.run c crew s₁).result := by
  rcases end_together hplan hcrew (Schedule.inOrder_completes p.layers) s₁ s₂ with
    ⟨r, hrun, htogether, -⟩ | ⟨k, e, e', hstop⟩
  · rw [hrun, htogether]
  · obtain ⟨steps, -, -, -, -, hsame⟩ := hstop.firstToFail
    rw [hstop.run_error, hstop.together_error, hsame (completions_inOrder k steps)]

/-- Of an accepted plan whose work is given by functions, a run side by side has the results
that a run one after another has, in whatever order the tasks are joined.  If there are none,
both stop in the same layer, and the run side by side with the first failure there. -/
theorem runConcurrently_agrees
    {name : String} {roots : List Nat} (hplan : Plan.build c name roots = .ok p)
    (hcrew : crew.Computes work p.steps) (hschedule : schedule.Completes p.layers)
    (s₁ s₂ : σ) :
    (∀ r, (p.runConcurrently c crew schedule s₂).result = .ok r ↔
      (p.run c crew s₁).result = .ok r) ∧
    (∀ r, (p.run c crew s₁).result = .ok r →
      r.layers.map (·.map Prod.fst) = p.layers.map (·.map c.name)) ∧
    (∀ e, (p.run c crew s₁).result = .error e →
      ∃ k e', p.StopTogether c crew work schedule s₁ s₂ k e e') := by
  rcases end_together hplan hcrew hschedule s₁ s₂ with
    ⟨r, hrun, htogether, hnames⟩ | ⟨k, e, e', hstop⟩
  · rw [hrun, htogether]
    refine ⟨fun _ => Iff.rfl, ?_, ?_⟩
    · intro r' hr
      cases hr
      exact hnames
    · intro e he
      cases he
  · rw [hstop.run_error, hstop.together_error]
    refine ⟨fun _ => ⟨nofun, nofun⟩, ?_, ?_⟩
    · intro r hr
      cases hr
    · intro e'' he
      cases he
      exact ⟨k, e', hstop⟩

/-- In the diamond the work on both sides fails. -/
def brokenSides : Nat → List Value → Except Failure Value
  | 1, _ => .error ⟨"no right side", []⟩
  | 2, _ => .error ⟨"no left side", []⟩
  | _, args => .ok (.array args)

/-- The left side is first in its layer, and the right side is first to fail when the tasks
are joined backwards. -/
theorem runConcurrently_agrees_brokenSides :
    build diamond "diamond" [3] = .ok diamondPlan ∧
    (Crew.pure brokenSides : Crew Unit).Computes brokenSides diamondPlan.steps ∧
    Schedule.backwards.Completes diamondPlan.layers ∧
    ∃ k e', diamondPlan.StopTogether diamond (Crew.pure brokenSides) brokenSides
      Schedule.backwards () () k (.stepFailed "left" ⟨"no left side", []⟩) e' := by
  refine ⟨build_diamond, Crew.pure_computes _ _, Schedule.backwards_completes _, ?_⟩
  exact (runConcurrently_agrees build_diamond (Crew.pure_computes _ _)
    (Schedule.backwards_completes _) () ()).2.2 _ rfl

end Plan

end WorkPlan

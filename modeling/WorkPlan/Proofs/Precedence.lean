import Mathlib.Tactic
import WorkPlan.Proofs.Interleaving

/-!
# What has ended when work starts

Dependencies of all kinds stand in earlier layers, and a layer is left behind only when all
of its work has returned.  So whatever starts finds the work of its dependencies returned,
whether the steps of a layer run one after another or side by side.  Nothing is said here of
what the work does: it may keep a state, fail or crash.
-/

namespace WorkPlan

open Json

variable {σ : Type}

namespace Run

variable {c : Catalog} {crew : Crew σ} {steps : List Nat}

/-! ## Steps one after another -/

theorem step_trace
    (c : Catalog) (crew : Crew σ) (i : Nat) (results : Members Value) (j : Journal σ) :
    ∃ trace, (step c crew i results j).journal.trace = j.trace ++ trace ∧
      Within [i] trace ∧
      ∀ v, (step c crew i results j).result = .ok v → Passed [i] trace := by
  unfold step
  cases hargs : c.argumentsFrom i results with
  | error e => exact ⟨[], by simp, within_nil [i], by simp⟩
  | ok args =>
      simp only [Journal.call, Journal.log]
      have hi : i ∈ [i] := List.mem_singleton_self i
      have hwithin : ∀ outcome, Within [i] [.started i, .ofOutcome i outcome] :=
        ((within_nil [i]).add_started hi List.not_mem_nil).add_ended hi
      refine ⟨[.started i, .ofOutcome i (crew i args j.state).1], ?_, hwithin _, ?_⟩
      · cases (crew i args j.state).1 <;> simp [Journal.mark]
      · cases (crew i args j.state).1 with
        | returned v =>
            intro _ _
            refine ⟨hwithin _, ?_, rfl⟩
            simp [Mark.ofOutcome]
        | failed f => simp
        | crashed message => simp

theorem layer_trace
    (c : Catalog) (crew : Crew σ) (hnodup : steps.Nodup) (results : Members Value)
    (j : Journal σ) :
    ∃ trace, (layer c crew steps results j).journal.trace = j.trace ++ trace ∧
      Within steps trace ∧
      ∀ ended, (layer c crew steps results j).result = .ok ended → Passed steps trace := by
  induction steps generalizing results j with
  | nil => exact ⟨[], by simp [layer], within_nil [], fun _ _ => passed_nil⟩
  | cons i steps ih =>
      obtain ⟨hnew, hnodup⟩ := List.nodup_cons.mp hnodup
      have hapart : ∀ k ∈ [i], ∀ l ∈ steps, k ≠ l := by
        intro k hk l hl hsame
        rw [List.mem_singleton.mp hk] at hsame
        exact hnew (hsame ▸ hl)
      obtain ⟨first, hfirst, hwithin, hpassed⟩ := step_trace c crew i results j
      cases hstep : (step c crew i results j).result with
      | error e =>
          rw [layer_cons_error hstep]
          exact ⟨first, hfirst, hwithin.append_steps steps, by simp⟩
      | ok v =>
          obtain ⟨trace, htrace, hrest, hrestPassed⟩ := ih hnodup
            (results.insert (c.name i) v) (step c crew i results j).journal
          rw [layer_cons_ok hstep]
          refine ⟨first ++ trace, ?_, hwithin.append hrest hapart, ?_⟩
          · rw [htrace, hfirst, List.append_assoc]
          · intro ended hended
            obtain ⟨others, hothers, -⟩ := Except.map_eq_ok_iff.mp hended
            exact (hpassed v hstep).append (hrestPassed others hothers) hapart

theorem layersFrom_trace
    (c : Catalog) (crew : Crew σ) {layers : List (List Nat)}
    (hnodup : layers.flatten.Nodup) (index : Nat) (results : Members Value) (j : Journal σ) :
    ∃ trace, (layersFrom c crew index layers results j).journal.trace = j.trace ++ trace ∧
      Staggered layers trace ∧
      ∀ outputs, (layersFrom c crew index layers results j).result = .ok outputs →
        Passed layers.flatten trace := by
  induction layers generalizing index results j with
  | nil => exact ⟨[], by simp [layersFrom], .finished, fun _ _ => passed_nil⟩
  | cons steps rest ih =>
      rw [List.flatten_cons, List.nodup_append] at hnodup
      obtain ⟨hsteps, hlater, hapart⟩ := hnodup
      obtain ⟨first, hfirst, hwithin, hpassed⟩ := layer_trace c crew hsteps results
         (j.log (.layerEntered index steps.length))
      cases hlayer : (layer c crew steps results
          (j.log (.layerEntered index steps.length))).result with
      | error e =>
          rw [layersFrom_cons_error hlayer]
          exact ⟨first, hfirst, .stopped hwithin, by simp⟩
      | ok ended =>
          obtain ⟨trace, htrace, hrest, hrestPassed⟩ := ih hlater (index + 1) ended.1
            (layer c crew steps results (j.log (.layerEntered index steps.length))).journal
          rw [layersFrom_cons_ok hlayer]
          refine ⟨first ++ trace, ?_, .passed (hpassed ended hlayer) hrest, ?_⟩
          · rw [htrace, hfirst, List.append_assoc]
            rfl
          · intro outputs houtputs
            obtain ⟨others, hothers, -⟩ := Except.map_eq_ok_iff.mp houtputs
            exact (hpassed ended hlayer).append (hrestPassed others hothers) hapart

end Run

/-! ## Runs of a plan -/

namespace Plan

variable {c : Catalog} {p : Plan} {crew : Crew σ} {name : String} {roots : List Nat}

/-- The order in which the work of the plan starts and ends in a run that has left a trace
and, if it has ended, a result. -/
structure InOrder
    (c : Catalog) (roots : List Nat) (p : Plan) (trace : List Mark)
    (result? : Option (Except RunError RunResult)) : Prop where
  /-- Work starts when the work of all dependencies has returned. -/
  dependencies : ∀ before i after, trace = before ++ .started i :: after →
    ∀ j, c.Dependency roots j i → .returned j ∈ before
  /-- Work starts when all work of earlier layers has returned. -/
  layers : ∀ before i after, trace = before ++ .started i :: after →
    ∀ j ∈ p.steps, p.layerOf j < p.layerOf i → .returned j ∈ before
  once : (starts trace).Nodup
  /-- Where work ends without a value, no work of a later layer starts. -/
  stops : ∀ j ∈ breaks trace, ∀ i ∈ starts trace, p.layerOf i ≤ p.layerOf j
  /-- A run with results leaves no work out. -/
  complete : ∀ r, result? = some (.ok r) → ∀ i ∈ p.steps, .returned i ∈ trace

theorem layerOf_lt_of_mem_before
    (hplan : build c name roots = .ok p) {before after : List (List Nat)} {steps : List Nat}
    (hsplit : p.layers = before ++ steps :: after) {i : Nat} (hi : i ∈ before.flatten) :
    p.layerOf i < before.length := by
  obtain ⟨layer, hlayer, hmem⟩ := List.mem_flatten.mp hi
  obtain ⟨first, rest, rfl⟩ := List.append_of_mem hlayer
  have hsplit' : p.layers = first ++ layer :: (rest ++ steps :: after) := by simp [hsplit]
  rw [layerOf_of_split hplan hsplit' hmem, List.length_append, List.length_cons]
  omega

theorem inOrder_of_staggered
    (hplan : build c name roots = .ok p) {trace : List Mark}
    {result? : Option (Except RunError RunResult)}
    (hstaggered : Staggered p.layers trace)
    (hpassed : ∀ r, result? = some (.ok r) → Passed p.layers.flatten trace) :
    p.InOrder c roots trace result? := by
  constructor
  · intro before i after hsplit j hdependency
    obtain ⟨passed, steps, rest, hlayers, hi, hreturned⟩ := hstaggered.returned_before hsplit
    exact hreturned j (mem_flatten_of_dependency hplan hlayers hi hdependency)
  · intro before i after hsplit j hj hearlier
    obtain ⟨passed, steps, rest, hlayers, hi, hreturned⟩ := hstaggered.returned_before hsplit
    rw [layerOf_of_split hplan hlayers hi] at hearlier
    have hreachable := (mem_steps hplan).mp hj
    exact hreturned j (mem_flatten_of_layerOf_lt hplan hlayers hreachable hearlier)
  · exact (hstaggered.within (steps_nodup hplan)).once
  · intro j hj i hi
    obtain ⟨passed, steps, rest, hlayers, hj, hstarted⟩ := hstaggered.last_of_broken hj
    rw [layerOf_of_split hplan hlayers hj]
    rcases hstarted i (mem_starts.mp hi) with hi | hi
    · exact (layerOf_lt_of_mem_before hplan hlayers hi).le
    · exact (layerOf_of_split hplan hlayers hi).le
  · intro r hr
    exact (hpassed r hr).returned

theorem run_inOrder
    (hplan : build c name roots = .ok p) (crew : Crew σ) (s : σ) :
    p.InOrder c roots (p.run c crew s).journal.trace (some (p.run c crew s).result) := by
  obtain ⟨trace, htrace, hstaggered, hpassed⟩ :=
    Run.layersFrom_trace c crew (steps_nodup hplan) 0 [] { state := s }
  rw [← run_trace] at htrace
  obtain rfl : (p.run c crew s).journal.trace = trace := htrace
  apply inOrder_of_staggered hplan hstaggered
  intro r hr
  rw [run_result, Option.some.injEq] at hr
  obtain ⟨outputs, houtputs, -⟩ := Except.map_eq_ok_iff.mp hr
  exact hpassed outputs houtputs

/-- Of an accepted plan, whatever the work does, work starts at most once, after the work of
all its dependencies and of all earlier layers has returned, and never in a layer after one
where work failed.  A run that has results has left no work out.  Side by side this is so in
every state that the run may come to, however its tasks interleave and also after an error;
what a schedule leads to is one of these states. -/
theorem runs_inOrder (hplan : build c name roots = .ok p) (crew : Crew σ) (s : σ) :
    p.InOrder c roots (p.run c crew s).journal.trace (some (p.run c crew s).result) ∧
    (∀ state, RunState.Reachable c crew p.layers s state →
      p.InOrder c roots state.layer.journal.trace state.result?) ∧
    (∀ schedule : Schedule, schedule.Completes p.layers →
      ∃ state, RunState.Reachable c crew p.layers s state ∧
        state.layer.journal.trace = (p.runConcurrently c crew schedule s).journal.trace ∧
        state.result? = some (p.runConcurrently c crew schedule s).result) := by
  have hnodup := steps_nodup hplan
  refine ⟨run_inOrder hplan crew s, ?_, ?_⟩
  · intro state hreached
    exact inOrder_of_staggered hplan (RunState.reachable_staggered hreached hnodup)
      fun r => RunState.reachable_passed hreached hnodup
  · intro schedule hschedule
    obtain ⟨state, hreached, hjournal, hresult⟩ :=
      RunState.exists_reachable_end .entered hschedule.from_zero
    refine ⟨state, hreached, ?_, ?_⟩
    · rw [runConcurrently_trace, hjournal]
      rfl
    · rw [runConcurrently_result, hresult]
      rfl

/-- When the work on both sides of the diamond fails, its bottom never starts.  Here both
sides start before one of them ends, and the second one ends after the error. -/
theorem runs_inOrder_brokenSides :
    build diamond "diamond" [3] = .ok diamondPlan ∧
    Schedule.backwards.Completes diamondPlan.layers ∧
    ∃ state, RunState.Reachable diamond (Crew.pure brokenSides : Crew Unit)
        diamondPlan.layers () state ∧
      state.layer.journal.trace =
        [.started 0, .returned 0, .started 2, .started 1, .failed 1, .failed 2] ∧
      diamondPlan.InOrder diamond [3] state.layer.journal.trace state.result? := by
  obtain ⟨-, hinOrder, hscheduled⟩ :=
    runs_inOrder build_diamond (Crew.pure brokenSides : Crew Unit) ()
  obtain ⟨state, hreached, htrace, -⟩ := hscheduled _ (Schedule.backwards_completes _)
  exact ⟨build_diamond, Schedule.backwards_completes _, state, hreached, htrace,
    hinOrder state hreached⟩

end Plan

end WorkPlan

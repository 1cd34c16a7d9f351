import Mathlib.Tactic
import WorkPlan.Proofs.Mirroring
import WorkPlan.Proofs.Readback
import WorkPlan.Proofs.RoundTrip

/-!
# Retry rules of rendered plans

Every retry entry of a definition comes from the rule of a step, and every rule with an
attempt is in the document.  Their counts are integers that always survive.  Their rates are
floats: one that is not finite has no JSON number and is rendered as null, which is neither
a rate for the execution service nor one that the document is read back with.
-/

namespace WorkPlan

open Json

namespace Machine

/-- The states at the top level and those of the branches, by name. -/
def allStates (machine : Value) : List (String × Value) :=
  states machine ++ (states machine).flatMap fun entry => (branches entry.2).flatMap states

/-- The entry says of the rule all but its rate. -/
structure Retries (errorEquals : List String) (policy : Retry) (entry : Value) : Prop where
  errors : entry.get? "ErrorEquals" = some (.strings errorEquals)
  attempts : ∃ n : Fin UInt64.size, entry.get? "MaxAttempts" = some (.number (.natural n)) ∧
    (n : Nat) = policy.maxAttempts.toNat ∧ 1 ≤ (n : Nat)
  interval : ∃ n : Fin UInt64.size,
    entry.get? "IntervalSeconds" = some (.number (.natural n)) ∧
      (n : Nat) = policy.intervalSeconds.toNat

/-- The entry has the rate of the rule, as a number. -/
def RatedAs (policy : Retry) (entry : Value) : Prop :=
  ∃ hfinite, entry.get? "BackoffRate" = some (.number (.float policy.backoffRate hfinite))

end Machine

/-- The step has the rule, which allows an attempt. -/
def Catalog.Retries (c : Catalog) (i : Nat) (policy : Retry) : Prop :=
  (c.step i).retry = some policy ∧ 0 < policy.maxAttempts

/-! ## Entries -/

namespace Retrier

variable {policy : Retry} {errorEquals : List String} {r : Retrier}

theorem retries_state (hr : ofRetry? errorEquals policy = some r) :
    Machine.Retries errorEquals policy r.state := by
  obtain ⟨hattempt, rfl⟩ := ofRetry?_eq_some_iff.mp hr
  constructor
  case errors => simp [state, Value.get?_ofEntries, Members.get?]
  case attempts =>
    have hsize : policy.maxAttempts.toNat < UInt64.size :=
      policy.maxAttempts.toNat_lt.trans (by decide)
    refine ⟨⟨_, hsize⟩, ?_, rfl, UInt32.lt_iff_toNat_lt.mp hattempt⟩
    simp [state, Value.get?_ofEntries, Members.get?, Value.nat, Number.ofInt?, hsize]
  case interval =>
    have hsize : policy.intervalSeconds.toNat < UInt64.size := policy.intervalSeconds.toNat_lt
    refine ⟨⟨_, hsize⟩, ?_, rfl⟩
    simp [state, Value.get?_ofEntries, Members.get?, Value.nat, Number.ofInt?, hsize]

theorem get?_state_rate (r : Retrier) :
    r.state.get? "BackoffRate" = some (.float r.backoffRate) := by
  simp [state, Value.get?_ofEntries, Members.get?]

theorem ratedAs_state
    (hr : ofRetry? errorEquals policy = some r) (hfinite : policy.Exact) :
    Machine.RatedAs policy r.state := by
  obtain ⟨-, rfl⟩ := ofRetry?_eq_some_iff.mp hr
  have hnumber : policy.backoffRate.isFinite = true := hfinite
  refine ⟨hnumber, ?_⟩
  simp [get?_state_rate, Value.float, Number.ofFloat?, hnumber]

end Retrier

/-! ## States -/

variable {settings : CompileSettings}

theorem Stage.exists_task_of_retry
    {stage : Stage} {rest : List Stage} {retry : Value}
    (hretry : (stage.stateBefore settings rest).get? "Retry" = some retry) :
    ∃ t ∈ stage.tasks, t.name = stage.name ∧ ∃ r, t.retry = some r ∧ retry = .array [r.state] := by
  rw [get?_stateBefore_of_ne (by decide) (by decide)] at hretry
  cases stage with
  | task t =>
      rw [state, Task.get?_state_retry, Option.map_eq_some_iff] at hretry
      obtain ⟨r, hr, rfl⟩ := hretry
      exact ⟨t, List.mem_singleton_self t, rfl, r, hr, rfl⟩
  | parallel name branches =>
      simp [state, Value.get?_ofEntries, Members.get?] at hretry

namespace Workflow

theorem exists_stage_of_mem_states
    {stages : List Stage} {entry : String × Value} (hentry : entry ∈ states settings stages) :
    ∃ stage ∈ stages, ∃ rest, entry = (stage.name, stage.stateBefore settings rest) := by
  induction stages with
  | nil => cases hentry
  | cons stage rest ih =>
      rcases List.mem_cons.mp hentry with rfl | hentry
      · exact ⟨stage, List.mem_cons_self, rest, rfl⟩
      · obtain ⟨later, hlater, following, rfl⟩ := ih hentry
        exact ⟨later, List.mem_cons_of_mem _ hlater, following, rfl⟩

/-- A state with a retry entry is the state of a task that has a retrier. -/
theorem exists_task_of_retry
    {w : Workflow} {name : String} {state retry : Value}
    (hstate : (name, state) ∈ Machine.allStates (w.definition settings))
    (hretry : state.get? "Retry" = some retry) :
    ∃ t ∈ w.tasks, t.name = name ∧ ∃ r, t.retry = some r ∧ retry = .array [r.state] := by
  unfold Machine.allStates at hstate
  cases hstages : w.stages with
  | nil =>
      rw [states_definition_of_nil settings hstages] at hstate
      obtain ⟨-, rfl⟩ : name = "Done" ∧ state = .ofEntries [("Type", .string "Succeed")] := by
        simpa [Machine.branches, Value.get?_ofEntries, Members.get?] using hstate
      simp [Value.get?_ofEntries, Members.get?] at hretry
  | cons first rest =>
      have hentries : ∀ entry ∈ Machine.states (w.definition settings),
          entry ∈ states settings w.stages := by
        rw [states_definition settings hstages]
        exact fun _ => Members.mem_of_mem_ofEntries
      rcases List.mem_append.mp hstate with htop | hinside
      · obtain ⟨stage, hstage, following, hentry⟩ :=
          exists_stage_of_mem_states (hentries _ htop)
        obtain ⟨rfl, rfl⟩ := Prod.mk.inj hentry
        obtain ⟨t, ht, hname, hretrier⟩ := stage.exists_task_of_retry hretry
        exact ⟨t, List.mem_flatMap.mpr ⟨stage, hstage, ht⟩, hname, hretrier⟩
      · obtain ⟨entry, htop, hbranch⟩ := List.mem_flatMap.mp hinside
        obtain ⟨stage, hstage, following, rfl⟩ := exists_stage_of_mem_states (hentries _ htop)
        rw [Stage.branches_stateBefore] at hbranch
        obtain ⟨machine, hmachine, hstate⟩ := List.mem_flatMap.mp hbranch
        obtain ⟨t, ht, rfl⟩ := List.mem_map.mp hmachine
        rw [Task.states_branch, List.mem_singleton] at hstate
        obtain ⟨rfl, rfl⟩ := Prod.mk.inj hstate
        obtain ⟨u, hu, -, hretrier⟩ := (Stage.task t).exists_task_of_retry hretry
        obtain rfl : u = t := List.mem_singleton.mp hu
        refine ⟨u, List.mem_flatMap.mpr ⟨stage, hstage, ?_⟩, rfl, hretrier⟩
        cases stage with
        | task _ => cases ht
        | parallel _ _ => exact ht

/-- A workflow that is read back has finite rates. -/
theorem exact_of_restores
    {w : Workflow} {d : Dialect} (hrestores : Codec.Restores (decode? d) w.encode w) :
    w.Exact := by
  obtain ⟨v, -, hread⟩ := hrestores
  exact yields_exact d v w hread

end Workflow

/-! ## Plans -/

namespace Plan

/-- Every retry entry of a state is that of one rule, of a step with the state's name, and
the entry is as it should be for the rule. -/
def RetryEntries
    (c : Catalog) (p : Plan) (machine : Value) (good : Retry → Value → Prop) : Prop :=
  ∀ name state retry, (name, state) ∈ Machine.allStates machine →
    state.get? "Retry" = some retry →
      ∃ i ∈ p.steps, c.name i = name ∧ ∃ policy, c.Retries i policy ∧
        ∃ entry, retry = .array [entry] ∧ good policy entry

variable {c : Catalog} {p : Plan} {name : String} {roots : List Nat} {rule : TargetRule}
  {w : Workflow}

theorem mirrors_of_compileWith
    (hplan : build c name roots = .ok p) (hcompile : p.compileWith c rule settings = .ok w) :
    w.Mirrors c rule settings p.layers :=
  Workflow.compile_mirrors hcompile fun _ hlayer => layers_ne_nil hplan hlayer

theorem exists_step_of_task
    (hmirrors : w.Mirrors c rule settings p.layers) {t : Task} (ht : t ∈ w.tasks) :
    ∃ i ∈ p.steps, t.Mirrors c rule settings i := by
  obtain ⟨stage, hstage, ht⟩ := List.mem_flatMap.mp ht
  obtain ⟨layer, hlayer, htasks⟩ := exists_of_forall₂_right hmirrors.forall₂_tasks hstage
  obtain ⟨i, hi, htask⟩ := exists_of_forall₂_right htasks ht
  exact ⟨i, List.mem_flatten.mpr ⟨layer, hlayer, hi⟩, htask⟩

theorem exists_task_of_step
    (hmirrors : w.Mirrors c rule settings p.layers) {i : Nat} (hi : i ∈ p.steps) :
    ∃ t ∈ w.tasks, t.Mirrors c rule settings i := by
  obtain ⟨layer, hlayer, hi⟩ := List.mem_flatten.mp hi
  obtain ⟨stage, hstage, htasks⟩ := exists_of_forall₂_left hmirrors.forall₂_tasks hlayer
  obtain ⟨t, ht, htask⟩ := exists_of_forall₂_left htasks hi
  exact ⟨t, List.mem_flatMap.mpr ⟨stage, hstage, ht⟩, htask⟩

theorem retryEntries_definition
    (hmirrors : w.Mirrors c rule settings p.layers) (rendering : CompileSettings)
    {good : Retry → Value → Prop}
    (hgood : ∀ i ∈ p.steps, ∀ policy r, c.Retries i policy →
      Retrier.ofRetry? settings.retryErrorEquals policy = some r → good policy r.state) :
    p.RetryEntries c (w.definition rendering) good := by
  intro name state retry hstate hretry
  obtain ⟨t, ht, rfl, r, hr, rfl⟩ := Workflow.exists_task_of_retry hstate hretry
  obtain ⟨i, hi, htask⟩ := exists_step_of_task hmirrors ht
  obtain ⟨policy, hpolicy, hattempt, hrule⟩ := (htask.retry r).mp hr
  have hretries : c.Retries i policy := ⟨hpolicy, hattempt⟩
  have hretrier := Retrier.ofRetry?_eq_some_iff.mpr ⟨hattempt, hrule⟩
  exact ⟨i, hi, htask.name.symm, policy, hretries, r.state, rfl,
    hgood i hi policy r hretries hretrier⟩

theorem exact_of_finite
    (hmirrors : w.Mirrors c rule settings p.layers)
    (hliterals : ∀ i ∈ p.steps, ∀ v, .literal v ∈ (c.step i).slots → v.Normal)
    (hfinite : ∀ i ∈ p.steps, ∀ policy, c.Retries i policy → policy.Exact) :
    w.Exact := by
  intro stage hstage t ht
  obtain ⟨i, hi, htask⟩ :=
    exists_step_of_task hmirrors (List.mem_flatMap.mpr ⟨stage, hstage, ht⟩)
  constructor
  · intro argument hargument
    obtain ⟨slot, hslot, hcompiles⟩ := exists_of_forall₂_right htask.arguments hargument
    cases hcompiles with
    | literal v => exact hliterals i hi v hslot
    | result j => trivial
  · intro r hr
    obtain ⟨policy, hpolicy, hattempt, rfl⟩ := (htask.retry r).mp hr
    exact hfinite i hi policy ⟨hpolicy, hattempt⟩

theorem finite_of_exact
    (hmirrors : w.Mirrors c rule settings p.layers) (hexact : w.Exact) :
    ∀ i ∈ p.steps, ∀ policy, c.Retries i policy → policy.Exact := by
  intro i hi policy hretries
  obtain ⟨t, ht, htask⟩ := exists_task_of_step hmirrors hi
  obtain ⟨stage, hstage, ht⟩ := List.mem_flatMap.mp ht
  have hretrier := (htask.retry _).mpr ⟨policy, hretries.1, hretries.2, rfl⟩
  exact (hexact stage hstage t ht).retry _ hretrier

/-- The counts of every retry entry are those of a step's rule.  The rates too are numbers
and the document is read back if and only if the rates of all rules with an attempt are
finite. -/
theorem retries_readable_iff
    (hplan : build c name roots = .ok p) (hcompile : p.compileWith c rule settings = .ok w)
    (hliterals : ∀ i ∈ p.steps, ∀ v, .literal v ∈ (c.step i).slots → v.Normal)
    (rendering : CompileSettings) :
    p.RetryEntries c (w.definition rendering) (Machine.Retries settings.retryErrorEquals) ∧
      ((p.RetryEntries c (w.definition rendering) Machine.RatedAs ∧
          Codec.Restores (Workflow.decode? .json) w.encode w) ↔
        ∀ i ∈ p.steps, ∀ policy, c.Retries i policy → policy.Exact) := by
  have hmirrors := mirrors_of_compileWith hplan hcompile
  refine ⟨?_, ?_, ?_⟩
  · exact retryEntries_definition hmirrors rendering
      fun _ _ _ _ _ hretrier => Retrier.retries_state hretrier
  · rintro ⟨-, hrestores⟩
    exact finite_of_exact hmirrors (Workflow.exact_of_restores hrestores)
  · intro hfinite
    refine ⟨?_, Workflow.restores .json (exact_of_finite hmirrors hliterals hfinite)⟩
    exact retryEntries_definition hmirrors rendering
      fun i hi policy _ hretries hretrier =>
        Retrier.ratedAs_state hretrier (hfinite i hi policy hretries)

/-! ## Plans of one step -/

/-- A single step with a rule. -/
def ruled (policy : Retry) : Catalog where
  steps := #[{ name := "only", retry := some policy }]
  earlier := by
    intro i s hs
    obtain ⟨hi, rfl⟩ := Array.getElem?_eq_some_iff.mp hs
    obtain rfl : i = 0 := Nat.lt_one_iff.mp hi
    simp [Step.references]

def ruledPlan : Plan where
  name := "ruled"
  graph := { graph := { nodes := [0], edges := [] }, order := [0] }
  layers := [[0]]

theorem build_ruled (policy : Retry) : build (ruled policy) "ruled" [0] = .ok ruledPlan := by
  cbv

/-- The usual rate is finite, so the rule of the only step is rendered and read back. -/
theorem retries_readable_iff_ruled :
    build (ruled (.attempts 1)) "ruled" [0] = .ok ruledPlan ∧
    ∃ w, ruledPlan.compileWith (ruled (.attempts 1)) .stepName {} = .ok w ∧
      (∀ i ∈ ruledPlan.steps, ∀ v, .literal v ∈ ((ruled (.attempts 1)).step i).slots →
        v.Normal) ∧
      ruledPlan.RetryEntries (ruled (.attempts 1)) (w.definition {})
        (Machine.Retries ["States.TaskFailed"]) ∧
      ruledPlan.RetryEntries (ruled (.attempts 1)) (w.definition {}) Machine.RatedAs ∧
      Codec.Restores (Workflow.decode? .json) w.encode w := by
  have hplan := build_ruled (.attempts 1)
  have hliterals : ∀ i ∈ ruledPlan.steps, ∀ v,
      .literal v ∈ ((ruled (.attempts 1)).step i).slots → v.Normal := by
    intro i hi v hv
    obtain rfl : i = 0 := List.mem_singleton.mp hi
    cases hv
  have hfinite : ∀ i ∈ ruledPlan.steps, ∀ policy,
      (ruled (.attempts 1)).Retries i policy → policy.Exact := by
    intro i hi policy hretries
    obtain rfl : i = 0 := List.mem_singleton.mp hi
    obtain rfl : Retry.attempts 1 = policy := Option.some.inj hretries.1
    exact Binary64.isFinite_ofInt (by decide)
  obtain ⟨w, hcompile⟩ : ∃ w, ruledPlan.compileWith (ruled (.attempts 1)) .stepName {} = .ok w :=
    ⟨_, rfl⟩
  obtain ⟨hcounts, hreadable⟩ := retries_readable_iff hplan hcompile hliterals {}
  obtain ⟨hrates, hrestores⟩ := hreadable.mpr hfinite
  exact ⟨hplan, w, hcompile, hliterals, hcounts, hrates, hrestores⟩

/-- A rule with one attempt and a rate that is no number. -/
def unrated : Retry := { maxAttempts := 1, backoffRate := .nan }

/-- The rule is rendered with null as its rate, and the document is not read back. -/
theorem not_readable_unrated :
    build (ruled unrated) "ruled" [0] = .ok ruledPlan ∧
    ∃ w state entry, ruledPlan.compileWith (ruled unrated) .stepName {} = .ok w ∧
      ("only", state) ∈ Machine.allStates (w.definition {}) ∧
      state.get? "Retry" = some (.array [entry]) ∧
      entry.get? "BackoffRate" = some .null ∧
      ¬ ruledPlan.RetryEntries (ruled unrated) (w.definition {}) Machine.RatedAs ∧
      ¬ Codec.Restores (Workflow.decode? .json) w.encode w := by
  let r : Retrier := ⟨["States.TaskFailed"], 1, 15, .nan⟩
  let t : Task := { name := "only", target := "only", retry := some r }
  let w : Workflow := { name := "ruled", stages := [.task t] }
  have hstates : Machine.states (w.definition {}) =
      [("only", (Stage.task t).stateBefore {} [])] :=
    Workflow.states_definition {} rfl
  have hstate : ("only", (Stage.task t).stateBefore {} []) ∈
      Machine.allStates (w.definition {}) := by
    simp [Machine.allStates, hstates]
  have hentry : ((Stage.task t).stateBefore {} []).get? "Retry" = some (.array [r.state]) := by
    rw [Stage.get?_stateBefore_of_ne (by decide) (by decide), Stage.state,
      Task.get?_state_retry]
    rfl
  have hrate : r.state.get? "BackoffRate" = some .null := r.get?_state_rate
  refine ⟨build_ruled unrated, w, _, r.state, rfl, hstate, hentry, hrate, ?_, ?_⟩
  · intro hentries
    obtain ⟨-, -, -, policy, -, entry, hsame, hfinite, hnumber⟩ :=
      hentries _ _ _ hstate hentry
    obtain rfl : r.state = entry := by simpa using hsame
    rw [hrate] at hnumber
    cases hnumber
  · intro hrestores
    have hexact := Workflow.exact_of_restores hrestores (.task t) List.mem_cons_self t
      List.mem_cons_self
    have hfinite : Binary64.nan.isFinite = true := hexact.retry r rfl
    exact absurd hfinite (by decide)

end Plan

end WorkPlan

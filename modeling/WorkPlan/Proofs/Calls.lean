import Mathlib.Tactic
import WorkPlan.Proofs.SequentialRun

/-!
# The work that a sequential run calls

The layers need not be those of a plan: a step may stand before one that it refers to,
beside it or more than once, and names may be shared.  The work may keep a state.  Still a
run calls the steps in their order, one after the other, until it is through or ends with
an error, and the error tells how far it came.
-/

namespace WorkPlan

open Json

variable {σ : Type}

/-- In the order of the arguments, the first one that needs a result under a name which
none of the steps that are done has. -/
def Catalog.FirstMissing
    (c : Catalog) (done : List Nat) (i : Nat) (dependency : String) : Prop :=
  ∃ before j after, (c.step i).slots = before ++ .result j :: after ∧
    c.name j = dependency ∧ dependency ∉ done.map c.name ∧
    ∀ k, .result k ∈ before → c.name k ∈ done.map c.name

namespace Crew

/-- The state after calls with the given arguments, in turn. -/
def after (crew : Crew σ) (calls : List (Nat × List Value)) (s : σ) : σ :=
  calls.foldl (fun s call => (crew call.1 call.2 s).2) s

@[simp] theorem after_nil (crew : Crew σ) (s : σ) : crew.after [] s = s := rfl

@[simp] theorem after_cons
    (crew : Crew σ) (i : Nat) (args : List Value) (calls : List (Nat × List Value)) (s : σ) :
    crew.after ((i, args) :: calls) s = crew.after calls (crew i args s).2 :=
  rfl

/-- The work of the steps answers with a value or with a failure. -/
def NeverCrashes (crew : Crew σ) (steps : List Nat) : Prop :=
  ∀ i ∈ steps, ∀ args s message, (crew i args s).1 ≠ .crashed message

end Crew

namespace Journal

@[simp] theorem calls_log (j : Journal σ) (event : Log.Event) : (j.log event).calls = j.calls :=
  rfl

@[simp] theorem calls_mark (j : Journal σ) (m : Mark) :
    (j.mark m).calls = j.calls ++ m.started?.toList := by
  unfold calls mark
  rw [List.filterMap_append]
  cases hstarted : m.started? <;> simp [hstarted]

@[simp] theorem calls_call (crew : Crew σ) (i : Nat) (args : List Value) (j : Journal σ) :
    (j.call crew i args).2.calls = j.calls ++ [i] :=
  calls_mark j (.started i)

@[simp] theorem started?_ofOutcome (i : Nat) (outcome : Outcome) :
    (Mark.ofOutcome i outcome).started? = none := by
  cases outcome <;> rfl

end Journal

/-! ## Arguments that are missing -/

section Arguments

variable {c : Catalog} {results : Members Value} {done : List Nat} {i : Nat}

theorem Slot.value_eq_error_iff
    {found? : String → Option Value} {slot : Slot} {e : RunError} :
    slot.value c i found? = .error e ↔
      ∃ j, slot = .result j ∧ found? (c.name j) = none ∧
        e = .missingResult (c.name i) (c.name j) := by
  cases slot with
  | literal v => simp [Slot.value]
  | result j => cases hfound : found? (c.name j) <;> simp [Slot.value, hfound, eq_comm]

theorem firstMissing_of_argumentsFrom
    (hcovers : results.Covers (done.map c.name)) {e : RunError}
    (hargs : c.argumentsFrom i results = .error e) :
    ∃ dependency, e = .missingResult (c.name i) dependency ∧
      c.FirstMissing done i dependency := by
  obtain ⟨before, slot, after, hslots, hbefore, hslot⟩ := mapM_eq_error_iff.mp hargs
  obtain ⟨j, rfl, hnone, rfl⟩ := Slot.value_eq_error_iff.mp hslot
  refine ⟨c.name j, rfl, before, j, after, hslots, rfl, ?_, ?_⟩
  · intro hdone
    have hsome := (hcovers (c.name j)).mpr hdone
    rw [hnone] at hsome
    cases hsome
  · intro k hk
    obtain ⟨v, hv⟩ := hbefore _ hk
    apply (hcovers (c.name k)).mp
    cases hfound : results.get? (c.name k) with
    | none => simp [Slot.value, hfound] at hv
    | some v => rfl

end Arguments

namespace Run

variable {c : Catalog} {crew : Crew σ}

/-! ## The course of a run -/

/-- The course of a run through steps when others are done: the state in which it finds the
crew, the calls that it makes, the error with which it ends, if there is one, and the state
in which it leaves the crew. -/
inductive Course (c : Catalog) (crew : Crew σ) :
    List Nat → List Nat → σ → List (Nat × List Value) → Option RunError → σ → Prop
  | finished {done : List Nat} {s : σ} : Course c crew done [] s [] none s
  | returned {done steps : List Nat} {i : Nat} {args : List Value} {v : Value} {s s' s'' : σ}
      {calls : List (Nat × List Value)} {error? : Option RunError}
      (hcall : crew i args s = (.returned v, s'))
      (hrest : Course c crew (done ++ [i]) steps s' calls error? s'') :
      Course c crew done (i :: steps) s ((i, args) :: calls) error? s''
  | failed {done steps : List Nat} {i : Nat} {args : List Value} {failure : Failure} {s s' : σ}
      (hcall : crew i args s = (.failed failure, s')) :
      Course c crew done (i :: steps) s [(i, args)] (some (.stepFailed (c.name i) failure)) s'
  | crashed {done steps : List Nat} {i : Nat} {args : List Value} {message : String} {s s' : σ}
      (hcall : crew i args s = (.crashed message, s')) :
      Course c crew done (i :: steps) s [(i, args)] (some (.crashed (c.name i) message)) s'
  | missing {done steps : List Nat} {i : Nat} {dependency : String} {s : σ}
      (hmissing : c.FirstMissing done i dependency) :
      Course c crew done (i :: steps) s [] (some (.missingResult (c.name i) dependency)) s

namespace Course

variable {done steps first second : List Nat} {s s' s'' : σ}
  {calls calls' : List (Nat × List Value)} {error? : Option RunError} {e : RunError}

theorem append
    (hfirst : Course c crew done first s calls none s')
    (hsecond : Course c crew (done ++ first) second s' calls' error? s'') :
    Course c crew done (first ++ second) s (calls ++ calls') error? s'' := by
  generalize hnone : (none : Option RunError) = error at hfirst
  induction hfirst with
  | finished => simpa using hsecond
  | returned hcall _ ih => exact .returned hcall (ih (by simpa using hsecond) hnone)
  | failed => cases hnone
  | crashed => cases hnone
  | missing => cases hnone

theorem append_steps
    (hcourse : Course c crew done steps s calls (some e) s') (more : List Nat) :
    Course c crew done (steps ++ more) s calls (some e) s' := by
  generalize hsome : some e = error at hcourse
  induction hcourse with
  | finished => cases hsome
  | returned hcall _ ih => exact .returned hcall (ih hsome)
  | failed hcall => exact .failed hcall
  | crashed hcall => exact .crashed hcall
  | missing hmissing => exact .missing hmissing

theorem state_eq (hcourse : Course c crew done steps s calls error? s') :
    s' = crew.after calls s := by
  induction hcourse with
  | finished | missing => rfl
  | returned hcall _ ih => rw [ih, Crew.after_cons, hcall]
  | failed hcall | crashed hcall => rw [Crew.after_cons, hcall, Crew.after_nil]

/-- No step is called out of its order, left out or called again. -/
theorem calls_prefix (hcourse : Course c crew done steps s calls error? s') :
    calls.map Prod.fst <+: steps := by
  induction hcourse with
  | finished => exact List.prefix_refl []
  | returned _ _ ih => exact (List.prefix_cons_inj _).mpr ih
  | failed | crashed => exact (List.prefix_cons_inj _).mpr List.nil_prefix
  | missing => exact List.nil_prefix

theorem calls_eq_of_finished (hcourse : Course c crew done steps s calls none s') :
    calls.map Prod.fst = steps := by
  generalize hnone : (none : Option RunError) = error at hcourse
  induction hcourse with
  | finished => rfl
  | returned _ _ ih => rw [List.map_cons, ih hnone]
  | failed | crashed | missing => cases hnone

theorem calls_of_failed
    {name : String} {failure : Failure}
    (hcourse : Course c crew done steps s calls (some (.stepFailed name failure)) s') :
    ∃ before i after, steps = before ++ i :: after ∧ calls.map Prod.fst = before ++ [i] ∧
      c.name i = name ∧ ∃ args earlier, crew i args earlier = (.failed failure, s') := by
  generalize hfailed : some (RunError.stepFailed name failure) = error at hcourse
  induction hcourse with
  | finished => cases hfailed
  | @returned _ _ i _ _ _ _ _ _ _ _ _ ih =>
      obtain ⟨before, k, after, rfl, hcalls, hk⟩ := ih hfailed
      exact ⟨i :: before, k, after, rfl, by rw [List.map_cons, hcalls]; rfl, hk⟩
  | @failed _ steps i args _ earlier _ hcall =>
      cases hfailed
      exact ⟨[], i, steps, rfl, rfl, rfl, args, earlier, hcall⟩
  | crashed | missing => cases hfailed

theorem calls_of_missing
    {name dependency : String}
    (hcourse : Course c crew done steps s calls (some (.missingResult name dependency)) s') :
    ∃ before i after, steps = before ++ i :: after ∧ calls.map Prod.fst = before ∧
      c.name i = name ∧ c.FirstMissing (done ++ before) i dependency := by
  generalize hended : some (RunError.missingResult name dependency) = error at hcourse
  induction hcourse with
  | finished => cases hended
  | @returned _ _ i _ _ _ _ _ _ _ _ _ ih =>
      obtain ⟨before, k, after, rfl, hcalls, hname, hmissing⟩ := ih hended
      refine ⟨i :: before, k, after, rfl, by rw [List.map_cons, hcalls], hname, ?_⟩
      simpa using hmissing
  | failed | crashed => cases hended
  | @missing _ steps i _ _ hmissing =>
      cases hended
      exact ⟨[], i, steps, rfl, rfl, rfl, by simpa using hmissing⟩

theorem error_cases
    (hcourse : Course c crew done steps s calls (some e) s')
    (hcalm : crew.NeverCrashes steps) :
    (∃ name failure, e = .stepFailed name failure) ∨
      ∃ name dependency, e = .missingResult name dependency := by
  generalize hsome : some e = error at hcourse
  induction hcourse with
  | finished => cases hsome
  | returned _ _ ih => exact ih (fun k hk => hcalm k (List.mem_cons_of_mem _ hk)) hsome
  | @failed _ _ i _ failure _ _ _ =>
      cases hsome
      exact Or.inl ⟨c.name i, failure, rfl⟩
  | @crashed _ _ i args message s _ hcall =>
      exact absurd (by rw [hcall]) (hcalm i List.mem_cons_self args s message)
  | @missing _ _ i dependency _ _ =>
      cases hsome
      exact Or.inr ⟨c.name i, dependency, rfl⟩

end Course

/-! ## From steps to runs -/

/-- The error with which a run ends, if there is one. -/
def error? {α : Type} (r : Run σ α) : Option RunError :=
  match r.result with
  | .ok _ => none
  | .error e => some e

theorem error?_of_ok {α : Type} {r : Run σ α} {x : α} (hresult : r.result = .ok x) :
    r.error? = none := by
  simp [error?, hresult]

theorem error?_of_error {α : Type} {r : Run σ α} {e : RunError} (hresult : r.result = .error e) :
    r.error? = some e := by
  simp [error?, hresult]

@[simp] theorem error?_map {α β : Type} (result : Except RunError α) (f : α → β)
    (j j' : Journal σ) :
    (⟨result.map f, j⟩ : Run σ β).error? = (⟨result, j'⟩ : Run σ α).error? := by
  cases result <;> rfl

/-- The run takes its course from a journal on, and notes the calls that it makes there. -/
def Follows {α : Type}
    (c : Catalog) (crew : Crew σ) (done steps : List Nat) (j : Journal σ) (r : Run σ α) :
    Prop :=
  ∃ calls, r.journal.calls = j.calls ++ calls.map Prod.fst ∧
    Course c crew done steps j.state calls r.error? r.journal.state

variable {results : Members Value} {done : List Nat}

theorem step_calls
    {i : Nat} {args : List Value} (hargs : c.argumentsFrom i results = .ok args)
    (crew : Crew σ) (j : Journal σ) :
    (step c crew i results j).journal.calls = j.calls ++ [i] := by
  simp only [step, hargs]
  cases (Journal.call crew i args (j.log (.stepInvoked (c.name i) args.length))).1 <;> simp

theorem step_follows
    (hcovers : results.Covers (done.map c.name)) (crew : Crew σ) (i : Nat) (j : Journal σ) :
    Follows c crew done [i] j (step c crew i results j) := by
  cases hargs : c.argumentsFrom i results with
  | error e =>
      obtain ⟨dependency, rfl, hmissing⟩ := firstMissing_of_argumentsFrom hcovers hargs
      have hstep : step c crew i results j =
          ⟨.error (.missingResult (c.name i) dependency), j⟩ := by
        simp only [step, hargs]
      rw [hstep]
      exact ⟨[], by simp, .missing hmissing⟩
  | ok args =>
      obtain ⟨hstate, hresult⟩ := step_of_arguments hargs crew j
      rcases hcall : crew i args j.state with ⟨outcome, s'⟩
      rw [hcall] at hstate hresult
      refine ⟨[(i, args)], step_calls hargs crew j, ?_⟩
      rw [hstate]
      cases outcome with
      | returned v =>
          rw [error?_of_ok hresult]
          exact .returned hcall .finished
      | failed failure =>
          rw [error?_of_error hresult]
          exact .failed hcall
      | crashed message =>
          rw [error?_of_error hresult]
          exact .crashed hcall

theorem layer_follows
    (hcovers : results.Covers (done.map c.name)) (crew : Crew σ) (steps : List Nat)
    (j : Journal σ) :
    Follows c crew done steps j (layer c crew steps results j) := by
  induction steps generalizing done results j with
  | nil => exact ⟨[], by simp [layer], .finished⟩
  | cons i steps ih =>
      obtain ⟨calls, hcalls, hcourse⟩ := step_follows hcovers crew i j
      cases hstep : (step c crew i results j).result with
      | error e =>
          rw [error?_of_error hstep] at hcourse
          rw [layer_cons_error hstep]
          exact ⟨calls, hcalls, hcourse.append_steps steps⟩
      | ok v =>
          have hcovers' : (results.insert (c.name i) v).Covers ((done ++ [i]).map c.name) := by
            simpa using hcovers.overlay [(c.name i, v)]
          obtain ⟨later, hlater, hrest⟩ := ih hcovers' (step c crew i results j).journal
          rw [error?_of_ok hstep] at hcourse
          rw [layer_cons_ok hstep]
          refine ⟨calls ++ later, ?_, ?_⟩
          · rw [hlater, hcalls, List.map_append, List.append_assoc]
          · rw [error?_map]
            exact hcourse.append hrest

theorem layersFrom_follows
    (hcovers : results.Covers (done.map c.name)) (crew : Crew σ) (index : Nat)
    (layers : List (List Nat)) (j : Journal σ) :
    Follows c crew done layers.flatten j (layersFrom c crew index layers results j) := by
  -- After a layer its steps are done as well, and its outputs cover their names.
  induction layers generalizing done results index j with
  | nil => exact ⟨[], by simp [layersFrom], .finished⟩
  | cons steps rest ih =>
      obtain ⟨calls, hcalls, hcourse⟩ :=
        layer_follows hcovers crew steps (j.log (.layerEntered index steps.length))
      rw [Journal.calls_log] at hcalls
      rw [Journal.state_log] at hcourse
      cases hlayer : (layer c crew steps results
          (j.log (.layerEntered index steps.length))).result with
      | error e =>
          rw [error?_of_error hlayer] at hcourse
          rw [layersFrom_cons_error hlayer]
          exact ⟨calls, hcalls, hcourse.append_steps rest.flatten⟩
      | ok ended =>
          obtain ⟨results', outputs⟩ := ended
          obtain ⟨rfl, hnames⟩ := layer_ok hlayer
          have hcovers' : (results.overlay outputs).Covers ((done ++ steps).map c.name) := by
            rw [List.map_append, ← hnames]
            exact hcovers.overlay outputs
          obtain ⟨later, hlater, hrest⟩ := ih hcovers' (index + 1)
            (layer c crew steps results (j.log (.layerEntered index steps.length))).journal
          rw [error?_of_ok hlayer] at hcourse
          rw [layersFrom_cons_ok hlayer]
          refine ⟨calls ++ later, ?_, ?_⟩
          · rw [hlater, hcalls, List.map_append, List.append_assoc]
          · rw [error?_map]
            exact hcourse.append hrest

theorem sequential_error?
    (c : Catalog) (crew : Crew σ) (layers : List (List Nat)) (s : σ) :
    (sequential c crew layers s).error? =
      (layersFrom c crew 0 layers [] { state := s }).error? := by
  unfold error?
  rw [sequential_result_eq]
  cases (layersFrom c crew 0 layers [] { state := s }).result <;> rfl

theorem sequential_course
    (c : Catalog) (crew : Crew σ) (layers : List (List Nat)) (s : σ) :
    ∃ calls, (sequential c crew layers s).journal.calls = calls.map Prod.fst ∧
      Course c crew [] layers.flatten s calls (sequential c crew layers s).error?
        (sequential c crew layers s).journal.state := by
  have hcovers : Members.Covers ([] : Members Value) (([] : List Nat).map c.name) :=
    Members.covers_nil
  obtain ⟨calls, hcalls, hcourse⟩ := layersFrom_follows hcovers crew 0 layers { state := s }
  refine ⟨calls, ?_, ?_⟩
  · rw [sequential_journal, hcalls]
    rfl
  · rw [sequential_journal, sequential_error?]
    exact hcourse

end Run

/-! ## Retry rules -/

/-- The steps of the catalogs differ in nothing but their retry rules. -/
def Catalog.SameButRetry (c c' : Catalog) : Prop :=
  ∀ i, ∃ retry, c'.step i = { c.step i with retry }

section Retry

variable {c c' : Catalog}

theorem Catalog.SameButRetry.name_eq (hsame : c.SameButRetry c') (i : Nat) :
    c'.name i = c.name i := by
  obtain ⟨retry, hstep⟩ := hsame i
  rw [Catalog.name, hstep]
  rfl

theorem Catalog.SameButRetry.argumentsFrom_eq
    (hsame : c.SameButRetry c') (i : Nat) (results : Members Value) :
    c'.argumentsFrom i results = c.argumentsFrom i results := by
  obtain ⟨retry, hstep⟩ := hsame i
  have hvalue : Slot.value c' i results.get? = Slot.value c i results.get? := by
    funext slot
    cases slot with
    | literal v => rfl
    | result j => simp only [Slot.value, hsame.name_eq]
  unfold Catalog.argumentsFrom Catalog.arguments
  rw [hvalue, hstep]

theorem Catalog.SameButRetry.crew_eq (hsame : c.SameButRetry c') : c'.crew = c.crew := by
  funext i args earlier
  obtain ⟨retry, hstep⟩ := hsame i
  simp only [Catalog.crew, hstep]

namespace Run

theorem step_eq_of_sameButRetry
    (hsame : c.SameButRetry c') (crew : Crew σ) (i : Nat) (results : Members Value)
    (j : Journal σ) :
    step c' crew i results j = step c crew i results j := by
  simp only [step, hsame.argumentsFrom_eq, hsame.name_eq]

theorem layer_eq_of_sameButRetry
    (hsame : c.SameButRetry c') (crew : Crew σ) (steps : List Nat) (results : Members Value)
    (j : Journal σ) :
    layer c' crew steps results j = layer c crew steps results j := by
  induction steps generalizing results j with
  | nil => rfl
  | cons i steps ih =>
      simp only [layer, step_eq_of_sameButRetry hsame, hsame.name_eq, ih]

theorem layersFrom_eq_of_sameButRetry
    (hsame : c.SameButRetry c') (crew : Crew σ) (index : Nat) (layers : List (List Nat))
    (results : Members Value) (j : Journal σ) :
    layersFrom c' crew index layers results j = layersFrom c crew index layers results j := by
  induction layers generalizing index results j with
  | nil => rfl
  | cons steps rest ih =>
      simp only [layersFrom, layer_eq_of_sameButRetry hsame, ih]

theorem sequential_eq_of_sameButRetry
    (hsame : c.SameButRetry c') (crew : Crew σ) (layers : List (List Nat)) (s : σ) :
    sequential c' crew layers s = sequential c crew layers s := by
  unfold sequential
  rw [layersFrom_eq_of_sameButRetry hsame]

end Run

end Retry

/-! ## All runs -/

namespace Run

variable {c : Catalog} {crew : Crew σ}

/-- Which of the steps a run from a state on has called, in view of its end.  The calls are
a first part of the steps: all of them if there are results, up to the step whose work
failed, or up to the step before the one that misses a result.  The crew is left in the
state in which these calls put it. -/
structure CallsInOrder
    (c : Catalog) (crew : Crew σ) (steps : List Nat) (s : σ) (r : Run σ RunResult) :
    Prop where
  in_order : r.journal.calls <+: steps
  state : ∃ calls, calls.map Prod.fst = r.journal.calls ∧ r.journal.state = crew.after calls s
  completed : ∀ results, r.result = .ok results → r.journal.calls = steps
  stopped : ∀ e, r.result = .error e →
    (∃ step failure, e = .stepFailed step failure) ∨
      ∃ step dependency, e = .missingResult step dependency
  failed : ∀ step failure, r.result = .error (.stepFailed step failure) →
    ∃ before i after, steps = before ++ i :: after ∧ r.journal.calls = before ++ [i] ∧
      c.name i = step ∧
      ∃ args earlier, crew i args earlier = (.failed failure, r.journal.state)
  missing : ∀ step dependency, r.result = .error (.missingResult step dependency) →
    ∃ before i after, steps = before ++ i :: after ∧ r.journal.calls = before ∧
      c.name i = step ∧ c.FirstMissing before i dependency

/-- Whatever layers are run and whatever state the work keeps, work that does not crash is
called in the order of the steps and for no place twice, and the retry rules of the steps
change nothing at all. -/
theorem sequential_callsInOrder
    {layers : List (List Nat)} (hcalm : crew.NeverCrashes layers.flatten) (s : σ) :
    CallsInOrder c crew layers.flatten s (sequential c crew layers s) ∧
      ∀ c', c.SameButRetry c' →
        c'.crew = c.crew ∧ sequential c' crew layers s = sequential c crew layers s := by
  refine ⟨?_, fun c' hsame =>
    ⟨hsame.crew_eq, sequential_eq_of_sameButRetry hsame crew layers s⟩⟩
  obtain ⟨calls, hcalls, hcourse⟩ := sequential_course c crew layers s
  constructor
  · rw [hcalls]
    exact hcourse.calls_prefix
  · exact ⟨calls, hcalls.symm, hcourse.state_eq⟩
  · intro results hresults
    rw [error?_of_ok hresults] at hcourse
    rw [hcalls]
    exact hcourse.calls_eq_of_finished
  · intro e he
    rw [error?_of_error he] at hcourse
    exact hcourse.error_cases hcalm
  · intro step failure hfailed
    rw [error?_of_error hfailed] at hcourse
    rw [hcalls]
    exact hcourse.calls_of_failed
  · intro step dependency hmissing
    rw [error?_of_error hmissing] at hcourse
    rw [hcalls]
    exact hcourse.calls_of_missing

/-- In these layers the diamond loads twice, and its last step stands before its right side.
The run ends there, with three calls made. -/
theorem sequential_callsInOrder_misplaced :
    Plan.diamond.crew.NeverCrashes [[0, 0], [2], [3, 1]].flatten ∧
    (sequential Plan.diamond Plan.diamond.crew [[0, 0], [2], [3, 1]] []).result =
      .error (.missingResult "join" "right") ∧
    (sequential Plan.diamond Plan.diamond.crew [[0, 0], [2], [3, 1]] []).journal.calls =
      [0, 0, 2] ∧
    ∃ before i after, [0, 0, 2, 3, 1] = before ++ i :: after ∧
      (sequential Plan.diamond Plan.diamond.crew [[0, 0], [2], [3, 1]] []).journal.calls =
        before ∧
      Plan.diamond.name i = "join" ∧ Plan.diamond.FirstMissing before i "right" := by
  have hcalm : Plan.diamond.crew.NeverCrashes [[0, 0], [2], [3, 1]].flatten := by
    intro i hi args earlier message
    fin_cases hi <;> exact nofun
  have hmissing : (sequential Plan.diamond Plan.diamond.crew [[0, 0], [2], [3, 1]] []).result =
      .error (.missingResult "join" "right") := rfl
  exact ⟨hcalm, hmissing, rfl, (sequential_callsInOrder hcalm []).1.missing _ _ hmissing⟩

end Run

end WorkPlan

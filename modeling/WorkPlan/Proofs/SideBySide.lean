import Mathlib.Tactic
import WorkPlan.Proofs.Moves

/-!
# Runs side by side

The tasks of a layer own their arguments, so each ends as it would on its own.  What the
order in which they are joined decides is only which failure is met first.  When no task
fails, the results of the layer come out in its own order.
-/

namespace WorkPlan

open Json

variable {σ : Type}

/-! ## The tasks of a layer -/

variable {c : Catalog} {crew : Crew σ} {work : Nat → List Value → Except Failure Value}
  {steps : List Nat} {results : Members Value}

def Catalog.failureAt?
    (c : Catalog) (work : Nat → List Value → Except Failure Value)
    (results : Members Value) (steps : List Nat) (place : Nat) : Option RunError :=
  steps[place]?.bind (c.failure? work results)

/-- A task has the arguments of its step, and its work ends as the work of the step does. -/
def TaskState.Computes
    (c : Catalog) (work : Nat → List Value → Except Failure Value) (results : Members Value)
    (i : Nat) : TaskState → Prop
  | .queued args => c.argumentsFrom i results = .ok args
  | .running outcome | .ended outcome | .joined outcome =>
      ∃ args, c.argumentsFrom i results = .ok args ∧ outcome = .ofExcept (work i args)
  | .aborted => True

namespace LayerState

variable {s next : LayerState σ} {move : Move} {phases : List Phase} {place i : Nat}

/-- All tasks compute what their steps say. -/
def Computes
    (c : Catalog) (work : Nat → List Value → Except Failure Value) (results : Members Value)
    (steps : List Nat) (s : LayerState σ) : Prop :=
  ∀ (place i : Nat) (task : TaskState),
    steps[place]? = some i → s.tasks[place]? = some task →
      TaskState.Computes c work results i task

theorem computes_empty (j : Journal σ) :
    Computes c work results steps { journal := j } := by
  intro place i task _ htask
  cases htask

/-- The tasks still compute what their steps say when one of them has changed. -/
theorem Computes.set
    (hcomputes : s.Computes c work results steps) (hstep : steps[place]? = some i)
    (new : TaskState) (hnew : TaskState.Computes c work results i new) :
    ∀ (other k : Nat) (task : TaskState), steps[other]? = some k →
      (s.tasks.set place new)[other]? = some task →
        TaskState.Computes c work results k task := by
  intro other k task hother htask
  rcases getElem?_set_cases htask with ⟨rfl, rfl⟩ | hbefore
  · rw [hstep] at hother
    cases hother
    exact hnew
  · exact hcomputes other k task hother hbefore

theorem Computes.makes
    (hcomputes : s.Computes c work results steps) (hcrew : crew.Computes work steps)
    (hmakes : s.Makes c crew steps results move next) :
    next.Computes c work results steps := by
  cases hmakes with
  | spawned hopen hstep hargs =>
      intro other k task hother htask
      rcases getElem?_concat_cases htask with ⟨rfl, rfl⟩ | hbefore
      · rw [hstep] at hother
        cases hother
        exact hargs
      · exact hcomputes other k task hother hbefore
  | missing => exact hcomputes
  | @started place i args hstep htask =>
      have hargs : c.argumentsFrom i results = .ok args := hcomputes place i _ hstep htask
      have houtcome : (s.journal.call crew i args).1 = .ofExcept (work i args) :=
        hcrew i (List.mem_of_getElem? hstep) args s.journal.state
      exact hcomputes.set hstep (.running _) ⟨args, hargs, houtcome⟩
  | @finished place i outcome hstep htask =>
      have hrunning : TaskState.Computes c work results i (.running outcome) :=
        hcomputes place i _ hstep htask
      exact hcomputes.set hstep (.ended outcome) hrunning
  | @joined place i outcome hopen hall hstep htask =>
      have hended : TaskState.Computes c work results i (.ended outcome) :=
        hcomputes place i _ hstep htask
      exact hcomputes.set hstep (.joined outcome) hended
  | aborted =>
      intro other k task hother htask
      rw [List.getElem?_map, Option.map_eq_some_iff] at htask
      obtain ⟨before, hbefore, rfl⟩ := htask
      have htask := hcomputes other k before hother hbefore
      cases before with
      | queued args => trivial
      | _ => exact htask

theorem computes_follow
    (hcrew : crew.Computes work steps) (c : Catalog) (results : Members Value) (moves : List Move) (j : Journal σ) :
    (follow c crew steps results moves { journal := j }).Computes c work results steps :=
  follow_preserves (fun _ _ _ hcomputes => hcomputes.makes hcrew) (computes_empty j) moves

/-- A task that has ended is joined with the failure of its step. -/
theorem Computes.failureAt?_eq
    (hcomputes : s.Computes c work results steps) (hstep : steps[place]? = some i)
    {outcome : Outcome} (htask : s.tasks[place]? = some (.ended outcome)) :
    c.failureAt? work results steps place = c.joinError? i outcome := by
  obtain ⟨args, hargs, rfl⟩ := hcomputes place i _ hstep htask
  have hanswer : c.answer work results i = (work i args).mapError (.stepFailed (c.name i)) :=
    Catalog.answer_of_arguments hargs
  simp only [Catalog.failureAt?, hstep, Option.bind_some, Catalog.failure?, hanswer]
  cases work i args <;> rfl

/-- A task that is joined with a value has the answer of its step. -/
theorem Computes.answer_eq
    (hcomputes : s.Computes c work results steps) (hstep : steps[place]? = some i) {v : Value}
    (htask : s.tasks[place]? = some (.joined (.returned v))) :
    (∃ args, c.argumentsFrom i results = .ok args) ∧ c.answer work results i = .ok v := by
  obtain ⟨args, hargs, houtcome⟩ := hcomputes place i _ hstep htask
  refine ⟨⟨args, hargs⟩, ?_⟩
  rw [Catalog.answer_of_arguments hargs]
  cases hwork : work i args with
  | ok w =>
      rw [hwork] at houtcome
      cases houtcome
      rfl
  | error f =>
      rw [hwork] at houtcome
      cases houtcome

/-! ## All moves of a layer -/

/-- The moves of a layer end for want of an argument, with the failure that is met first,
or without an error. -/
theorem Computes.follow
    (hcomputes : s.Computes c work results steps) (hcrew : crew.Computes work steps)
    (hphased : s.Phased steps phases) (moves : List Move) :
    (∃ i ∈ steps, ∃ e, c.argumentsFrom i results = .error e ∧
      (follow c crew steps results moves s).error? = some e) ∨
    (∃ e, (follow c crew steps results moves s).error? = some e ∧
      (completionsFrom steps.length phases moves).findSome?
        (c.failureAt? work results steps) = some e) ∨
    (follow c crew steps results moves s).error? = none := by
  induction moves generalizing s phases with
  | nil => exact Or.inr (Or.inr hphased.noError)
  | cons move moves ih =>
      have hnext : Computes c work results steps
          ((s.move? c crew steps results move).getD s) := by
        cases hmove : s.move? c crew steps results move with
        | none => exact hcomputes
        | some next => exact hcomputes.makes hcrew (makes_of_move? hmove)
      rw [LayerState.follow, completionsFrom, List.findSome?_append]
      rcases hphased.goes c crew results move with
        @⟨i, e, hmem, hargs, herror⟩ | @⟨place, i, outcome, hjoins, hstep, htask, herror, hgoes⟩ |
          ⟨hjoins, hgoes⟩
      · exact Or.inl ⟨i, hmem, e, hargs, follow_error? herror moves⟩
      · rw [hjoins, Option.toList_some, List.findSome?_singleton,
          hcomputes.failureAt?_eq hstep htask]
        cases hfailure : c.joinError? i outcome with
        | none => simpa using ih hnext (hgoes hfailure)
        | some e =>
            rw [hfailure] at herror
            exact Or.inr (Or.inl ⟨e, follow_error? herror moves, rfl⟩)
      · rw [hjoins]
        simpa using ih hnext hgoes

@[simp] theorem follow_entered (c : Catalog) (crew : Crew σ) (steps : List Nat)
    (results : Members Value) (moves : List Move) (s : LayerState σ) :
    (LayerState.follow c crew steps results moves s).journal.entered = s.journal.entered := by
  have hkeeps : ∀ (before : LayerState σ) (move : Move) (next : LayerState σ),
      before.journal.entered = s.journal.entered →
        before.Makes c crew steps results move next →
          next.journal.entered = s.journal.entered := by
    intro before move next hbefore hmakes
    rw [← hbefore]
    cases hmakes with
    | @finished place i outcome =>
        cases outcome <;> simp [Journal.finish, Log.Event.entered?]
    | started => exact Journal.entered_call ..
    | _ => rfl
  exact follow_preserves hkeeps rfl moves

end LayerState

/-! ## The results of a layer -/

theorem answers_eq_outputs
    {tasks : List TaskState}
    (hvalues : ∀ (place i : Nat), steps[place]? = some i → ∃ v,
      tasks[place]? = some (.joined (.returned v)) ∧ c.answer work results i = .ok v) :
    c.answers work results steps = .ok ((steps.zip tasks).filterMap fun (i, task) =>
      task.value?.map fun v => (c.name i, v)) := by
  induction steps generalizing tasks with
  | nil => rfl
  | cons i steps ih =>
      obtain ⟨v, hfirst, hanswer⟩ := hvalues 0 i rfl
      cases tasks with
      | nil => cases hfirst
      | cons task tasks =>
          cases hfirst
          have hlater : ∀ (place k : Nat), steps[place]? = some k → ∃ w,
              tasks[place]? = some (.joined (.returned w)) ∧
                c.answer work results k = .ok w :=
            fun place k hplace => hvalues (place + 1) k hplace
          rw [Catalog.answers_cons_ok hanswer, ih hlater]
          rfl

namespace Run

theorem layerTogether_result_eq
    (c : Catalog) (crew : Crew σ) (moves : List Move) (steps : List Nat)
    (results : Members Value) (j : Journal σ) :
    (layerTogether c crew moves steps results j).result =
      match (LayerState.follow c crew steps results moves { journal := j }).error? with
      | some e => .error e
      | none => .ok
          ((LayerState.follow c crew steps results moves { journal := j }).outputs c steps) := by
  simp only [layerTogether]
  cases (LayerState.follow c crew steps results moves { journal := j }).error? <;> rfl

theorem layerTogether_journal
    (c : Catalog) (crew : Crew σ) (moves : List Move) (steps : List Nat)
    (results : Members Value) (j : Journal σ) :
    (layerTogether c crew moves steps results j).journal =
      (LayerState.follow c crew steps results moves { journal := j }).journal := by
  simp only [layerTogether]
  cases (LayerState.follow c crew steps results moves { journal := j }).error? <;> rfl

/-- A layer whose tasks are all joined when none fails ends for want of an argument, with
the failure that is met first, or with what it answers. -/
theorem layerTogether_result
    {moves : List Move} (hcrew : crew.Computes work steps)
    (hcomplete : Complete moves steps.length) (j : Journal σ) :
    (∃ i ∈ steps, ∃ e, c.argumentsFrom i results = .error e ∧
      (layerTogether c crew moves steps results j).result = .error e) ∨
    (∃ e, (layerTogether c crew moves steps results j).result = .error e ∧
      (completions steps.length moves).findSome? (c.failureAt? work results steps) = some e) ∨
    (∃ outputs, (layerTogether c crew moves steps results j).result = .ok outputs ∧
      (∀ i ∈ steps, ∃ args, c.argumentsFrom i results = .ok args) ∧
      c.answers work results steps = .ok outputs) := by
  rw [layerTogether_result_eq]
  rcases (LayerState.computes_empty j).follow hcrew (LayerState.phased_empty steps j) moves with
    ⟨i, hmem, e, hargs, herror⟩ | ⟨e, herror, hfirst⟩ | hnone
  · exact Or.inl ⟨i, hmem, e, hargs, by rw [herror]⟩
  · exact Or.inr (Or.inl ⟨e, by rw [herror], hfirst⟩)
  · have hdone := LayerState.isDone_of_complete hcomplete c crew results j hnone
    have hsettled := LayerState.settled_follow c crew steps results moves j
    have hcomputes := LayerState.computes_follow hcrew c results moves j
    have hvalues : ∀ (place i : Nat), steps[place]? = some i → ∃ v,
        (LayerState.follow c crew steps results moves { journal := j }).tasks[place]? =
          some (.joined (.returned v)) ∧ c.answer work results i = .ok v := by
      intro place i hstep
      obtain ⟨v, htask⟩ := hsettled.values hdone (List.getElem?_eq_some_iff.mp hstep).1
      exact ⟨v, htask, (hcomputes.answer_eq hstep htask).2⟩
    refine Or.inr (Or.inr ⟨LayerState.outputs c steps _, by rw [hnone], ?_,
      answers_eq_outputs hvalues⟩)
    intro i hi
    obtain ⟨place, hplace⟩ := List.getElem?_of_mem hi
    obtain ⟨v, htask, -⟩ := hvalues place i hplace
    exact (hcomputes.answer_eq hplace htask).1

theorem exists_answers_error
    {places : List Nat} {e : RunError}
    (hfirst : places.findSome? (c.failureAt? work results steps) = some e) :
    ∃ e', c.answers work results steps = .error e' := by
  obtain ⟨place, -, hplace⟩ := List.exists_of_findSome?_eq_some hfirst
  obtain ⟨i, hstep, hfailure⟩ := Option.bind_eq_some_iff.mp hplace
  cases hfind : steps.findSome? (c.failure? work results) with
  | some e' => exact ⟨e', Catalog.answers_eq_error_iff.mpr hfind⟩
  | none =>
      have hnone := List.findSome?_eq_none_iff.mp hfind i (List.mem_of_getElem? hstep)
      rw [hfailure] at hnone
      cases hnone

theorem layerTogether_ok
    {moves : List Move} {outputs : List (String × Value)}
    (hanswers : c.answers work results steps = .ok outputs)
    (hcrew : crew.Computes work steps)
    (hargs : ∀ i ∈ steps, ∃ args, c.argumentsFrom i results = .ok args)
    (hcomplete : Complete moves steps.length) (j : Journal σ) :
    (layerTogether c crew moves steps results j).result = .ok outputs := by
  rcases layerTogether_result hcrew hcomplete j with
    ⟨i, hi, e, hmissing, -⟩ | ⟨e, -, hfirst⟩ | ⟨outputs', hok, -, hanswers'⟩
  · obtain ⟨args, hfound⟩ := hargs i hi
    rw [hmissing] at hfound
    cases hfound
  · obtain ⟨e', herror⟩ := exists_answers_error hfirst
    rw [hanswers] at herror
    cases herror
  · rw [hok, ← hanswers, hanswers']

theorem layerTogether_error
    {moves : List Move} {e : RunError} (hanswers : c.answers work results steps = .error e)
    (hcrew : crew.Computes work steps)
    (hargs : ∀ i ∈ steps, ∃ args, c.argumentsFrom i results = .ok args)
    (hcomplete : Complete moves steps.length) (j : Journal σ) :
    ∃ e', (layerTogether c crew moves steps results j).result = .error e' ∧
      (completions steps.length moves).findSome?
        (c.failureAt? work results steps) = some e' := by
  rcases layerTogether_result hcrew hcomplete j with
    ⟨i, hi, e, hmissing, -⟩ | hfirst | ⟨outputs, -, -, hok⟩
  · obtain ⟨args, hfound⟩ := hargs i hi
    rw [hmissing] at hfound
    cases hfound
  · exact hfirst
  · rw [hanswers] at hok
    cases hok

@[simp] theorem layerTogether_entered (c : Catalog) (crew : Crew σ) (moves : List Move)
    (steps : List Nat) (results : Members Value) (j : Journal σ) :
    (layerTogether c crew moves steps results j).journal.entered = j.entered := by
  rw [layerTogether_journal, LayerState.follow_entered]

end Run

end WorkPlan

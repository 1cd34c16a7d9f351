import Mathlib.Tactic
import WorkPlan.Proofs.FirstError
import WorkPlan.Proofs.Reachability
import WorkPlan.Run.Basic

/-!
# What steps answer

When the work of a step is a function of its arguments, its answer depends on the results
it refers to and on nothing else.  A layer answers with the values of its steps, or with
the error of the first one that has no value.
-/

namespace WorkPlan

open Json

/-- The end of work that does not crash. -/
def Outcome.ofExcept : Except Failure Value → Outcome
  | .ok value => .returned value
  | .error failure => .failed failure

/-- The crew answers for the steps as the functions say, whatever it did before. -/
def Crew.Computes
    {σ : Type} (crew : Crew σ) (work : Nat → List Value → Except Failure Value)
    (steps : List Nat) : Prop :=
  ∀ i ∈ steps, ∀ args state, (crew i args state).1 = .ofExcept (work i args)

/-- The crew that does the work and keeps no state of its own. -/
def Crew.pure {σ : Type} (work : Nat → List Value → Except Failure Value) : Crew σ :=
  fun i args state => (.ofExcept (work i args), state)

section Computes

variable {σ : Type} {crew : Crew σ} {work : Nat → List Value → Except Failure Value}
  {steps : List Nat} {rest : List (List Nat)}

theorem Crew.Computes.head (hcrew : crew.Computes work (steps :: rest).flatten) :
    crew.Computes work steps :=
  fun i hi => hcrew i (List.mem_append_left _ hi)

theorem Crew.Computes.tail (hcrew : crew.Computes work (steps :: rest).flatten) :
    crew.Computes work rest.flatten :=
  fun i hi => hcrew i (List.mem_append_right _ hi)

theorem Crew.pure_computes
    (work : Nat → List Value → Except Failure Value) (steps : List Nat) :
    (Crew.pure work : Crew σ).Computes work steps :=
  fun _ _ _ _ => rfl

end Computes

namespace Catalog

variable {c : Catalog} {work : Nat → List Value → Except Failure Value}

/-- The names of the steps whose results a step uses. -/
def sources (c : Catalog) (i : Nat) : List String :=
  ((c.step i).slots.filterMap Slot.step?).map c.name

theorem mem_sources {i : Nat} {name : String} :
    name ∈ c.sources i ↔ ∃ j, .result j ∈ (c.step i).slots ∧ c.name j = name := by
  simp [sources, Slot.step?_eq_some_iff]

/-! ## Arguments -/

theorem arguments_congr
    {i : Nat} {found found' : String → Option Value}
    (hsame : ∀ name ∈ c.sources i, found name = found' name) :
    c.arguments i found = c.arguments i found' := by
  apply mapM_congr_of_mem
  intro slot hslot
  cases slot with
  | literal v => rfl
  | result j => simp [Slot.value, hsame (c.name j) (mem_sources.mpr ⟨j, hslot, rfl⟩)]

theorem exists_arguments
    {i : Nat} {found : String → Option Value}
    (hfound : ∀ name ∈ c.sources i, (found name).isSome) :
    ∃ args, c.arguments i found = .ok args := by
  apply exists_mapM_eq_ok_of_forall
  intro slot hslot
  cases slot with
  | literal v => exact ⟨v, rfl⟩
  | result j =>
      have hname : c.name j ∈ c.sources i := mem_sources.mpr ⟨j, hslot, rfl⟩
      obtain ⟨v, hv⟩ := Option.isSome_iff_exists.mp (hfound _ hname)
      exact ⟨v, by simp [Slot.value, hv]⟩

theorem isSome_of_mem_sources
    {i : Nat} {found : String → Option Value} {args : List Value}
    (hargs : c.arguments i found = .ok args) {name : String} (hname : name ∈ c.sources i) :
    (found name).isSome := by
  obtain ⟨j, hslot, rfl⟩ := mem_sources.mp hname
  obtain ⟨v, hv⟩ := exists_of_mapM_eq_ok hargs hslot
  cases hfound : found (c.name j) with
  | none => simp [Slot.value, hfound] at hv
  | some v => rfl

/-! ## Answers -/

/-- What a step answers on the results so far. -/
def answer
    (c : Catalog) (work : Nat → List Value → Except Failure Value)
    (results : Members Value) (i : Nat) : Except RunError Value :=
  match c.argumentsFrom i results with
  | .error e => .error e
  | .ok args => (work i args).mapError (.stepFailed (c.name i))

/-- The error with which a step ends on the results so far, if it has no value. -/
def failure?
    (c : Catalog) (work : Nat → List Value → Except Failure Value)
    (results : Members Value) (i : Nat) : Option RunError :=
  match c.answer work results i with
  | .ok _ => none
  | .error e => some e

def answers
    (c : Catalog) (work : Nat → List Value → Except Failure Value)
    (results : Members Value) (steps : List Nat) : Except RunError (List (String × Value)) :=
  steps.mapM fun i => (c.answer work results i).map fun v => (c.name i, v)

/-- The results of layers, each on the results of those before it. -/
def layerAnswers
    (c : Catalog) (work : Nat → List Value → Except Failure Value) :
    Members Value → List (List Nat) → Except RunError (List (List (String × Value)))
  | _, [] => .ok []
  | results, steps :: rest =>
      match c.answers work results steps with
      | .error e => .error e
      | .ok outputs =>
          (layerAnswers c work (results.overlay outputs) rest).map (outputs :: ·)

theorem answer_congr
    {i : Nat} {results results' : Members Value}
    (hsame : ∀ name ∈ c.sources i, results.get? name = results'.get? name) :
    c.answer work results i = c.answer work results' i := by
  unfold answer argumentsFrom
  rw [arguments_congr hsame]

theorem answers_congr
    {steps : List Nat} {results results' : Members Value}
    (hsame : ∀ i ∈ steps, ∀ name ∈ c.sources i, results.get? name = results'.get? name) :
    c.answers work results steps = c.answers work results' steps := by
  apply mapM_congr_of_mem
  intro i hi
  rw [answer_congr (hsame i hi)]

theorem answer_of_arguments
    {i : Nat} {results : Members Value} {args : List Value}
    (hargs : c.argumentsFrom i results = .ok args) :
    c.answer work results i = (work i args).mapError (.stepFailed (c.name i)) := by
  simp [answer, hargs]

@[simp] theorem failure?_eq_some_iff {i : Nat} {results : Members Value} {e : RunError} :
    c.failure? work results i = some e ↔ c.answer work results i = .error e := by
  unfold failure?
  cases c.answer work results i <;> simp

@[simp] theorem failure?_eq_none_iff {i : Nat} {results : Members Value} :
    c.failure? work results i = none ↔ ∃ v, c.answer work results i = .ok v := by
  unfold failure?
  cases c.answer work results i <;> simp

theorem answers_cons_error
    {i : Nat} {results : Members Value} {e : RunError}
    (hanswer : c.answer work results i = .error e) (steps : List Nat) :
    c.answers work results (i :: steps) = .error e :=
  mapM_cons_of_error (by rw [hanswer]; rfl) steps

theorem answers_cons_ok
    {i : Nat} {results : Members Value} {v : Value}
    (hanswer : c.answer work results i = .ok v) (steps : List Nat) :
    c.answers work results (i :: steps) =
      (c.answers work results steps).map ((c.name i, v) :: ·) :=
  mapM_cons_of_ok (by rw [hanswer]; rfl) steps

/-- A layer without an answer ends with the error of its first step without one. -/
theorem answers_eq_error_iff {steps : List Nat} {results : Members Value} {e : RunError} :
    c.answers work results steps = .error e ↔
      steps.findSome? (c.failure? work results) = some e := by
  have hok : ∀ i, (∃ entry, (c.answer work results i).map (fun v => (c.name i, v)) =
      .ok entry) ↔ c.failure? work results i = none := by
    intro i
    rw [failure?_eq_none_iff]
    cases c.answer work results i <;> simp [Except.map]
  have herror : ∀ i, (c.answer work results i).map (fun v => (c.name i, v)) = .error e ↔
      c.failure? work results i = some e := by
    intro i
    rw [failure?_eq_some_iff]
    cases c.answer work results i <;> simp [Except.map]
  unfold answers
  simp only [mapM_eq_error_iff, List.findSome?_eq_some_iff, hok, herror]
  constructor
  · rintro ⟨before, i, after, hsplit, hbefore, hi⟩
    exact ⟨before, i, after, hsplit, hi, hbefore⟩
  · rintro ⟨before, i, after, hsplit, hi, hbefore⟩
    exact ⟨before, i, after, hsplit, hbefore, hi⟩

theorem answers_names
    {steps : List Nat} {results : Members Value} {outputs : List (String × Value)}
    (hanswers : c.answers work results steps = .ok outputs) :
    outputs.map Prod.fst = steps.map c.name := by
  have hentries := mapM_eq_ok_iff.mp hanswers
  clear hanswers
  induction hentries with
  | nil => rfl
  | @cons i entry _ _ hentry _ ih =>
      have hname : entry.1 = c.name i := by
        cases hanswer : c.answer work results i with
        | error e => simp [hanswer, Except.map] at hentry
        | ok v =>
            rw [hanswer] at hentry
            cases hentry
            rfl
      simp [hname, ih]

theorem layerAnswers_cons_error
    {steps : List Nat} {results : Members Value} {e : RunError}
    (hanswers : c.answers work results steps = .error e) (rest : List (List Nat)) :
    c.layerAnswers work results (steps :: rest) = .error e := by
  simp [layerAnswers, hanswers]

theorem layerAnswers_cons_ok
    {steps : List Nat} {results : Members Value} {outputs : List (String × Value)}
    (hanswers : c.answers work results steps = .ok outputs) (rest : List (List Nat)) :
    c.layerAnswers work results (steps :: rest) =
      (c.layerAnswers work (results.overlay outputs) rest).map (outputs :: ·) := by
  simp [layerAnswers, hanswers]

theorem layerAnswers_cons_eq_ok_iff
    {steps : List Nat} {rest : List (List Nat)} {results : Members Value}
    {outputs : List (List (String × Value))} :
    c.layerAnswers work results (steps :: rest) = .ok outputs ↔
      ∃ first others, outputs = first :: others ∧ c.answers work results steps = .ok first ∧
        c.layerAnswers work (results.overlay first) rest = .ok others := by
  cases hanswers : c.answers work results steps with
  | error e => simp [layerAnswers_cons_error hanswers]
  | ok first =>
      rw [layerAnswers_cons_ok hanswers, Except.map_eq_ok_iff]
      constructor
      · rintro ⟨others, hothers, rfl⟩
        exact ⟨first, others, rfl, rfl, hothers⟩
      · rintro ⟨_, others, rfl, hfirst, hothers⟩
        cases hfirst
        exact ⟨others, hothers, rfl⟩

theorem layerAnswers_names
    {layers : List (List Nat)} {results : Members Value}
    {outputs : List (List (String × Value))}
    (hanswers : c.layerAnswers work results layers = .ok outputs) :
    outputs.map (·.map Prod.fst) = layers.map (·.map c.name) := by
  induction layers generalizing results outputs with
  | nil =>
      cases hanswers
      rfl
  | cons steps rest ih =>
      obtain ⟨first, others, rfl, hfirst, hrest⟩ := layerAnswers_cons_eq_ok_iff.mp hanswers
      simp [answers_names hfirst, ih hrest]

end Catalog

end WorkPlan

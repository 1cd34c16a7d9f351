import Mathlib.Tactic
import WorkPlan.Run.Basic

/-!
# Traces

The trace of a run is cut at the ends of its layers.  A layer is left behind only when all
of its work has returned, so whatever starts later finds the work of every earlier layer
returned.
-/

namespace WorkPlan

open Json

/-! ## Marks -/

namespace Mark

/-- The step to which a mark belongs. -/
def step : Mark → Nat
  | .started i | .returned i | .failed i | .crashed i => i

/-- The step whose work ended without a value. -/
def broken? : Mark → Option Nat
  | .failed i | .crashed i => some i
  | _ => none

theorem started?_eq_some_iff {mark : Mark} {i : Nat} :
    mark.started? = some i ↔ mark = .started i := by
  cases mark <;> simp [started?]

theorem broken?_eq_some_iff {mark : Mark} {i : Nat} :
    mark.broken? = some i ↔ mark = .failed i ∨ mark = .crashed i := by
  cases mark <;> simp [broken?]

@[simp] theorem ofOutcome_step (i : Nat) (outcome : Outcome) :
    (ofOutcome i outcome).step = i := by
  cases outcome <;> rfl

end Mark

/-- The steps whose work starts, in order. -/
def starts (trace : List Mark) : List Nat := trace.filterMap Mark.started?

/-- The steps whose work ends without a value, in order. -/
def breaks (trace : List Mark) : List Nat := trace.filterMap Mark.broken?

@[simp] theorem starts_append (first second : List Mark) :
    starts (first ++ second) = starts first ++ starts second := by
  simp [starts]

@[simp] theorem breaks_append (first second : List Mark) :
    breaks (first ++ second) = breaks first ++ breaks second := by
  simp [breaks]

theorem mem_starts {trace : List Mark} {i : Nat} : i ∈ starts trace ↔ .started i ∈ trace := by
  simp [starts, Mark.started?_eq_some_iff]

theorem mem_breaks {trace : List Mark} {i : Nat} :
    i ∈ breaks trace ↔ .failed i ∈ trace ∨ .crashed i ∈ trace := by
  simp only [breaks, List.mem_filterMap, Mark.broken?_eq_some_iff]
  constructor
  · rintro ⟨_, hmem, rfl | rfl⟩
    · exact Or.inl hmem
    · exact Or.inr hmem
  · intro hmem
    rcases hmem with hmem | hmem
    · exact ⟨_, hmem, Or.inl rfl⟩
    · exact ⟨_, hmem, Or.inr rfl⟩

/-- The marks belong to the steps, and no work starts twice. -/
structure Within (steps : List Nat) (trace : List Mark) : Prop where
  belongs : ∀ mark ∈ trace, mark.step ∈ steps
  once : (starts trace).Nodup

/-- Moreover all work of the steps has returned. -/
structure Passed (steps : List Nat) (trace : List Mark) : Prop extends
    Within steps trace where
  returned : ∀ i ∈ steps, .returned i ∈ trace
  unbroken : breaks trace = []

/-- The trace runs through layers, each of them passed before the next one begins. -/
inductive Staggered : List (List Nat) → List Mark → Prop
  | finished : Staggered [] []
  | stopped {steps : List Nat} {rest : List (List Nat)} {trace : List Mark}
      (hlayer : Within steps trace) : Staggered (steps :: rest) trace
  | passed {steps : List Nat} {rest : List (List Nat)} {trace later : List Mark}
      (hlayer : Passed steps trace) (hrest : Staggered rest later) :
      Staggered (steps :: rest) (trace ++ later)

section Within

variable {steps others : List Nat} {trace later : List Mark}

theorem within_nil (steps : List Nat) : Within steps [] := by
  constructor <;> simp [starts]

theorem passed_nil : Passed [] [] := by
  refine ⟨within_nil [], ?_, rfl⟩
  simp

theorem Within.eq_nil (hwithin : Within [] trace) : trace = [] := by
  rw [List.eq_nil_iff_forall_not_mem]
  exact fun mark hmark => List.not_mem_nil (hwithin.belongs mark hmark)

theorem Within.mem_of_started
    (hwithin : Within steps trace) {i : Nat} (hstarted : .started i ∈ trace) :
    i ∈ steps :=
  hwithin.belongs _ hstarted

theorem Within.mem_of_broken
    (hwithin : Within steps trace) {i : Nat} (hbroken : i ∈ breaks trace) :
    i ∈ steps := by
  rcases mem_breaks.mp hbroken with hmem | hmem
  · exact hwithin.belongs _ hmem
  · exact hwithin.belongs _ hmem

theorem Within.add_started
    (hwithin : Within steps trace) {i : Nat} (hi : i ∈ steps) (hnew : .started i ∉ trace) :
    Within steps (trace ++ [.started i]) := by
  constructor
  · intro mark hmark
    rcases List.mem_append.mp hmark with hmark | hmark
    · exact hwithin.belongs mark hmark
    · rw [List.mem_singleton.mp hmark]
      exact hi
  · have hstarts : starts [.started i] = [i] := rfl
    rw [starts_append, hstarts, ← List.concat_eq_append]
    exact hwithin.once.concat fun hmem => hnew (mem_starts.mp hmem)

theorem Within.add_ended
    (hwithin : Within steps trace) {i : Nat} (hi : i ∈ steps) (outcome : Outcome) :
    Within steps (trace ++ [.ofOutcome i outcome]) := by
  constructor
  · intro mark hmark
    rcases List.mem_append.mp hmark with hmark | hmark
    · exact hwithin.belongs mark hmark
    · rw [List.mem_singleton.mp hmark, Mark.ofOutcome_step]
      exact hi
  · have hstarts : starts [.ofOutcome i outcome] = [] := by cases outcome <;> rfl
    rw [starts_append, hstarts, List.append_nil]
    exact hwithin.once

theorem Within.append
    (hwithin : Within steps trace) (hlater : Within others later)
    (hapart : ∀ i ∈ steps, ∀ k ∈ others, i ≠ k) :
    Within (steps ++ others) (trace ++ later) := by
  constructor
  · intro mark hmark
    rcases List.mem_append.mp hmark with hmark | hmark
    · exact List.mem_append_left _ (hwithin.belongs mark hmark)
    · exact List.mem_append_right _ (hlater.belongs mark hmark)
  · rw [starts_append, List.nodup_append]
    refine ⟨hwithin.once, hlater.once, ?_⟩
    rintro i hi _ hj rfl
    have hfirst := hwithin.mem_of_started (mem_starts.mp hi)
    have hsecond := hlater.mem_of_started (mem_starts.mp hj)
    exact hapart i hfirst i hsecond rfl

theorem Within.append_steps (hwithin : Within steps trace) (others : List Nat) :
    Within (steps ++ others) trace :=
  ⟨fun mark hmark => List.mem_append_left _ (hwithin.belongs mark hmark), hwithin.once⟩

theorem Passed.append
    (hpassed : Passed steps trace) (hlater : Passed others later)
    (hapart : ∀ i ∈ steps, ∀ k ∈ others, i ≠ k) :
    Passed (steps ++ others) (trace ++ later) := by
  refine ⟨hpassed.toWithin.append hlater.toWithin hapart, ?_, ?_⟩
  · intro i hi
    rcases List.mem_append.mp hi with hi | hi
    · exact List.mem_append_left _ (hpassed.returned i hi)
    · exact List.mem_append_right _ (hlater.returned i hi)
  · rw [breaks_append, hpassed.unbroken, hlater.unbroken, List.append_nil]

end Within

namespace Staggered

variable {layers : List (List Nat)} {trace : List Mark}

theorem within (hstaggered : Staggered layers trace) (hnodup : layers.flatten.Nodup) :
    Within layers.flatten trace := by
  induction hstaggered with
  | finished => exact within_nil []
  | @stopped steps rest trace hlayer => exact hlayer.append_steps rest.flatten
  | passed hlayer _ ih =>
      rw [List.flatten_cons, List.nodup_append] at hnodup
      obtain ⟨-, hrest, hapart⟩ := hnodup
      exact hlayer.toWithin.append (ih hrest) hapart

/-- When work starts, all layers before its own are passed. -/
theorem returned_before
    (hstaggered : Staggered layers trace) {before after : List Mark} {i : Nat}
    (hsplit : trace = before ++ .started i :: after) :
    ∃ passed steps rest, layers = passed ++ steps :: rest ∧ i ∈ steps ∧
      ∀ j ∈ passed.flatten, .returned j ∈ before := by
  induction hstaggered generalizing before with
  | finished => simp at hsplit
  | @stopped steps rest trace hlayer =>
      have hi : i ∈ steps := hlayer.mem_of_started (by simp [hsplit])
      exact ⟨[], steps, rest, rfl, hi, by simp⟩
  | @passed steps rest trace later hlayer hrest ih =>
      -- The mark stands in the trace of the first layer, or that trace is all before it.
      by_cases hfirst : ∃ tail, trace = before ++ .started i :: tail
      · obtain ⟨tail, htail⟩ := hfirst
        have hi : i ∈ steps := hlayer.mem_of_started (by simp [htail])
        exact ⟨[], steps, rest, rfl, hi, by simp⟩
      · have hlater : ∃ before', before = trace ++ before' ∧
            later = before' ++ .started i :: after := by
          rcases List.append_eq_append_iff.mp hsplit with
            ⟨before', hbefore, hafter⟩ | ⟨tail, htrace, htail⟩
          · exact ⟨before', hbefore, hafter⟩
          · cases tail with
            | nil => exact ⟨[], by simpa using htrace.symm, by simpa using htail.symm⟩
            | cons mark tail =>
                obtain ⟨rfl, -⟩ := List.cons.inj htail
                exact absurd ⟨tail, htrace⟩ hfirst
        obtain ⟨before', rfl, hafter⟩ := hlater
        obtain ⟨passed, own, rest', rfl, hi, hreturned⟩ := ih hafter
        refine ⟨steps :: passed, own, rest', rfl, hi, ?_⟩
        intro j hj
        rcases List.mem_append.mp hj with hj | hj
        · exact List.mem_append_left _ (hlayer.returned j hj)
        · exact List.mem_append_right _ (hreturned j hj)

/-- Work that ends without a value is in the last layer that the trace reaches. -/
theorem last_of_broken
    (hstaggered : Staggered layers trace) {j : Nat} (hbroken : j ∈ breaks trace) :
    ∃ passed steps rest, layers = passed ++ steps :: rest ∧ j ∈ steps ∧
      ∀ i, .started i ∈ trace → i ∈ passed.flatten ∨ i ∈ steps := by
  induction hstaggered with
  | finished => simp [breaks] at hbroken
  | @stopped steps rest trace hlayer =>
      have hj : j ∈ steps := hlayer.mem_of_broken hbroken
      exact ⟨[], steps, rest, rfl, hj, fun i hi => Or.inr (hlayer.mem_of_started hi)⟩
  | @passed steps rest trace later hlayer hrest ih =>
      rw [breaks_append, hlayer.unbroken, List.nil_append] at hbroken
      obtain ⟨passed, own, rest', rfl, hj, hstarted⟩ := ih hbroken
      refine ⟨steps :: passed, own, rest', rfl, hj, ?_⟩
      intro i hi
      rcases List.mem_append.mp hi with hi | hi
      · exact Or.inl (List.mem_append_left _ (hlayer.mem_of_started hi))
      · exact (hstarted i hi).imp (List.mem_append_right _) id

/-- Layers behind that are passed may be put before. -/
theorem after
    {behind : List (List Nat)} {traces : List (List Mark)}
    (hbehind : List.Forall₂ Passed behind traces) (hstaggered : Staggered layers trace) :
    Staggered (behind ++ layers) (traces.flatten ++ trace) := by
  induction hbehind with
  | nil => exact hstaggered
  | cons hfirst _ ih =>
      rw [List.flatten_cons, List.append_assoc]
      exact .passed hfirst ih

end Staggered

theorem passed_flatten
    {behind : List (List Nat)} {traces : List (List Mark)}
    (hbehind : List.Forall₂ Passed behind traces) (hnodup : behind.flatten.Nodup) :
    Passed behind.flatten traces.flatten := by
  induction hbehind with
  | nil => exact passed_nil
  | cons hfirst _ ih =>
      rw [List.flatten_cons, List.nodup_append] at hnodup
      obtain ⟨-, hrest, hapart⟩ := hnodup
      exact hfirst.append (ih hrest) hapart

end WorkPlan

import Mathlib.Tactic
import WorkPlan.Proofs.Calls
import WorkPlan.Proofs.Layering
import WorkPlan.Workflow.Compilation

/-!
# Arguments that are looked up by name

The arguments of a step are looked up in the results of a run, in the payload that its
deployed task receives, or as the arguments of its compiled task say.  The three ways go
through the arguments in the same order and by the same names: they give the same values,
or they miss the same name first.
-/

namespace WorkPlan

open Json

namespace Argument

/-- The value of a compiled argument, or the name of the output that is missing. -/
def find (found? : String → Option Value) : Argument → Except String Value
  | .literal v => .ok v
  | .output name =>
    match found? name with
    | some v => .ok v
    | none => .error name

end Argument

/-- The values of the arguments of a task, or the first name that is missing. -/
def Task.find (found? : String → Option Value) (t : Task) : Except String (List Value) :=
  t.arguments.mapM (Argument.find found?)

/-- The value is the one given, or the result that is found under the name of the step. -/
inductive Slot.Takes (c : Catalog) (found? : String → Option Value) : Slot → Value → Prop
  | literal (v : Value) : Takes c found? (.literal v) v
  | result {j : Nat} {v : Value} (hfound : found? (c.name j) = some v) :
      Takes c found? (.result j) v

/-- The outcome has one value for each argument in turn, or it is the error of the first
argument without one. -/
structure Catalog.LookedUp
    (c : Catalog) (i : Nat) (found? : String → Option Value)
    (outcome : Except RunError (List Value)) : Prop where
  ok_iff : ∀ args, outcome = .ok args ↔
    List.Forall₂ (Slot.Takes c found?) (c.step i).slots args
  error_iff : ∀ e, outcome = .error e ↔
    ∃ before j after, (c.step i).slots = before ++ .result j :: after ∧
      (∀ k, .result k ∈ before → (found? (c.name k)).isSome) ∧ found? (c.name j) = none ∧
      e = .missingResult (c.name i) (c.name j)

variable {c : Catalog} {i : Nat} {found? : String → Option Value}

/-! ## Single arguments -/

theorem Slot.value_eq_ok_iff {slot : Slot} {v : Value} :
    slot.value c i found? = .ok v ↔ slot.Takes c found? v := by
  constructor
  · intro hvalue
    cases slot with
    | literal =>
        cases hvalue
        exact .literal v
    | result j =>
        cases hfound : found? (c.name j) with
        | none => simp [Slot.value, hfound] at hvalue
        | some u =>
            simp only [Slot.value, hfound, Except.ok.injEq] at hvalue
            exact .result (hvalue ▸ hfound)
  · intro htakes
    cases htakes with
    | literal => rfl
    | result hfound => simp [Slot.value, hfound]

theorem Slot.exists_value_iff {slot : Slot} :
    (∃ v, slot.value c i found? = .ok v) ↔
      ∀ k, slot = .result k → (found? (c.name k)).isSome := by
  cases slot with
  | literal v => simp [Slot.value]
  | result j => cases hfound : found? (c.name j) <;> simp [Slot.value, hfound]

theorem Slot.find_compile (slot : Slot) :
    ((slot.compile c).find found?).mapError (.missingResult (c.name i)) =
      slot.value c i found? := by
  cases slot with
  | literal v => rfl
  | result j =>
      cases hfound : found? (c.name j) <;>
        simp [Slot.compile, Argument.find, Slot.value, hfound, Except.mapError]

/-! ## All arguments of a step -/

theorem Task.find_ofStep (c : Catalog) (settings : CompileSettings) (i : Nat) (target : String)
    (found? : String → Option Value) :
    ((Task.ofStep c settings i target).find found?).mapError (.missingResult (c.name i)) =
      c.arguments i found? := by
  have hslots : (Task.ofStep c settings i target).find found? =
      (c.step i).slots.mapM fun slot => (slot.compile c).find found? :=
    List.mapM_map
  rw [hslots, mapM_mapError, Catalog.arguments]
  exact mapM_congr_of_mem fun slot _ => slot.find_compile

namespace Catalog

theorem lookedUp_arguments (c : Catalog) (i : Nat) (found? : String → Option Value) :
    c.LookedUp i found? (c.arguments i found?) where
  ok_iff := by
    intro args
    rw [arguments, mapM_eq_ok_iff]
    simp only [Slot.value_eq_ok_iff]
  error_iff := by
    intro e
    rw [arguments, mapM_eq_error_iff]
    simp only [Slot.value_eq_error_iff, Slot.exists_value_iff]
    constructor
    · rintro ⟨before, _, after, hslots, hbefore, j, rfl, hnone, he⟩
      exact ⟨before, j, after, hslots, fun k hk => hbefore _ hk k rfl, hnone, he⟩
    · rintro ⟨before, j, after, hslots, hbefore, hnone, he⟩
      refine ⟨before, .result j, after, hslots, ?_, j, rfl, hnone, he⟩
      rintro _ hslot k rfl
      exact hbefore k hslot

theorem sources_eq_nil_iff : c.sources i = [] ↔ ∀ j, .result j ∉ (c.step i).slots := by
  rw [List.eq_nil_iff_forall_not_mem]
  simp only [mem_sources, not_exists, not_and]
  exact ⟨fun hnone j hslot => hnone _ j hslot rfl, fun hnone _ j hslot _ => hnone j hslot⟩

/-- A payload that is no object has nothing to look up. -/
theorem exists_argumentsFromPayload_iff
    {payload : Value} (hpayload : ∀ members, payload ≠ .object members) :
    (∃ args, c.argumentsFromPayload i payload = .ok args) ↔
      ∀ j, .result j ∉ (c.step i).slots := by
  have hget : ∀ name, payload.get? name = none := by
    intro name
    cases payload with
    | object members => exact absurd rfl (hpayload members)
    | _ => rfl
  rw [← sources_eq_nil_iff, List.eq_nil_iff_forall_not_mem]
  constructor
  · rintro ⟨args, hargs⟩ name hname
    have hsome := isSome_of_mem_sources hargs hname
    simp [hget] at hsome
  · intro hnone
    exact exists_arguments fun name hname => absurd hname (hnone name)

/-- A payload that holds the results gives a step the arguments that the results give it, and
its compiled task stands for these arguments.  Only a step that uses no result finds its
arguments in a payload that is no object. -/
theorem arguments_looked_up_alike
    (c : Catalog) (i : Nat) (settings : CompileSettings) (target : String)
    {results : Members Value} {payload : Value}
    (hpayload : ∀ name, payload.get? name = results.get? name) :
    c.LookedUp i results.get? (c.argumentsFrom i results) ∧
      c.argumentsFromPayload i payload = c.argumentsFrom i results ∧
      ((Task.ofStep c settings i target).find results.get?).mapError
        (.missingResult (c.name i)) = c.argumentsFrom i results ∧
      ∀ other : Value, (∀ members, other ≠ .object members) →
        ((∃ args, c.argumentsFromPayload i other = .ok args) ↔
          ∀ j, .result j ∉ (c.step i).slots) := by
  refine ⟨c.lookedUp_arguments i results.get?, ?_, Task.find_ofStep c settings i target _, ?_⟩
  · exact arguments_congr fun name _ => hpayload name
  · exact fun other hother => exists_argumentsFromPayload_iff hother

/-- Of the results that the last step of the diamond uses, one is there and the first is
not; a list of invocation results has neither. -/
theorem arguments_looked_up_alike_join :
    let results : Members Value := [("load", .null), ("right", .string "r")]
    (∀ name, (Value.object results).get? name = results.get? name) ∧
    Plan.diamond.argumentsFrom 3 results = .error (.missingResult "join" "left") ∧
    Plan.diamond.argumentsFromPayload 3 (.object results) =
      .error (.missingResult "join" "left") ∧
    ((Task.ofStep Plan.diamond {} 3 "join-function").find results.get?).mapError
      (RunError.missingResult "join") = .error (.missingResult "join" "left") ∧
    (∀ members, Value.array [] ≠ .object members) ∧
    ¬ ∃ args, Plan.diamond.argumentsFromPayload 3 (.array []) = .ok args := by
  intro results
  have hpayload : ∀ name, (Value.object results).get? name = results.get? name :=
    fun _ => rfl
  obtain ⟨hlooked, hobject, htask, hother⟩ :=
    arguments_looked_up_alike Plan.diamond 3 {} "join-function" hpayload
  have herror : Plan.diamond.argumentsFrom 3 results =
      .error (.missingResult "join" "left") :=
    (hlooked.error_iff _).mpr ⟨[], 2, [.result 1], rfl, by simp, rfl, rfl⟩
  have hlist : ∀ members, Value.array [] ≠ .object members := nofun
  refine ⟨hpayload, herror, hobject.trans herror, htask.trans herror, hlist, ?_⟩
  rw [hother _ hlist]
  exact fun hnone => hnone 2 List.mem_cons_self

end Catalog

end WorkPlan

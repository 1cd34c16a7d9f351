import Mathlib.Tactic
import WorkPlan.Handoff
import WorkPlan.Proofs.Overlay

/-!
# Outputs that are handed on

Every task of a stage hands on all that it received together with its own result.  When the
results have new names, what the tasks of a stage hand on together is what they received
with all of their results, in whatever way it was wrapped.
-/

namespace WorkPlan

open Json

namespace Members

universe u

variable {α : Type u}

theorem ofEntries_of_sorted {members : Members α} (hsorted : members.Sorted) :
    ofEntries members = members :=
  (sorted_ofEntries members).ext hsorted (get?_ofEntries_of_nodup hsorted.keys_nodup)

theorem overlay_ofEntries
    {members : Members α} (hsorted : members.Sorted) (added : List (String × α)) :
    members.overlay (ofEntries added) = members.overlay added :=
  (overlay_assoc hsorted .nil added).symm

/-- Members with one more entry bring nothing else when the rest of them is there and was
not replaced. -/
theorem overlay_insert_of_fresh
    {members : Members α} (hsorted : members.Sorted) {added : List (String × α)}
    (hfresh : ∀ entry ∈ added, get? entry.1 members = none) (name : String) (value : α) :
    overlay (overlay members added) (members.insert name value) =
      (overlay members added).insert name value := by
  have hinsert : (members.insert name value).Sorted := hsorted.insert name value
  apply ((hsorted.overlay added).overlay _).ext ((hsorted.overlay added).insert name value)
  intro key
  rw [get?_overlay_of_nodup hinsert.keys_nodup, get?_insert, get?_insert]
  by_cases hkey : key = name
  · simp [hkey]
  · rw [if_neg hkey, if_neg hkey]
    cases hunder : get? key members with
    | none => rfl
    | some v =>
        have hother : key ∉ added.map Prod.fst := by
          intro hmem
          obtain ⟨entry, hentry, rfl⟩ := List.mem_map.mp hmem
          rw [hfresh entry hentry] at hunder
          cases hunder
        rw [get?_overlay_of_notMem hother, hunder]
        rfl

end Members

namespace Handoff

theorem sorted_foldl_carried
    {members : Members Value} (hmembers : members.Sorted) (results : List Value) :
    (results.foldl (fun members result => members.overlay (carried result))
      members).Sorted := by
  induction results generalizing members with
  | nil => exact hmembers
  | cons result results ih => exact ih (hmembers.overlay (carried result))

theorem combine_sorted (event : Value) : (combine event).Sorted := by
  cases event with
  | array results => exact sorted_foldl_carried .nil results
  | object members => exact Members.sorted_ofEntries _
  | _ => exact .nil

/-- One more result is laid over what the results before it carry. -/
theorem combine_concat (results : List Value) (result : Value) :
    combine (.array (results ++ [result])) =
      (combine (.array results)).overlay (carried result) := by
  simp [combine]

@[simp] theorem carried_wrap (outputs : Members Value) : carried (wrap outputs) = outputs := rfl

theorem combine_wrap {outputs : Members Value} (hsorted : outputs.Sorted) :
    combine (wrap outputs) = outputs :=
  Members.ofEntries_of_sorted hsorted

/-- The event that a stage hands on: the result of its only task, or the list of the results
of its tasks. -/
def next (event : Value) : List (String × Value) → Value
  | [(name, v)] => wrap (extend name event v)
  | outputs => .array (outputs.map fun (name, v) => wrap (extend name event v))

theorem foldl_carried
    {event : Value} {done outputs : List (String × Value)}
    (hfresh : ∀ entry ∈ done ++ outputs, (combine event).get? entry.1 = none) :
    (outputs.map fun (name, v) => wrap (extend name event v)).foldl
        (fun members result => members.overlay (carried result))
        ((combine event).overlay done) =
      (combine event).overlay (done ++ outputs) := by
  induction outputs generalizing done with
  | nil => simp
  | cons entry outputs ih =>
      obtain ⟨name, v⟩ := entry
      have hdone : ∀ entry ∈ done, (combine event).get? entry.1 = none :=
        fun entry hentry => hfresh entry (List.mem_append_left _ hentry)
      have hrest : ∀ entry ∈ done ++ [(name, v)] ++ outputs,
          (combine event).get? entry.1 = none := by
        simpa using hfresh
      have hlater := ih hrest
      rw [List.map_cons, List.foldl_cons, carried_wrap, extend,
        Members.overlay_insert_of_fresh (combine_sorted event) hdone]
      rw [Members.overlay_append, List.append_assoc] at hlater
      exact hlater

theorem combine_next
    {event : Value} {outputs : List (String × Value)} (hne : outputs ≠ [])
    (hfresh : ∀ entry ∈ outputs, (combine event).get? entry.1 = none) :
    combine (next event outputs) = (combine event).overlay outputs := by
  have hsorted : ∀ (name : String) (v : Value), (extend name event v).Sorted :=
    fun name v => (combine_sorted event).insert name v
  match outputs, hne, hfresh with
  | [(name, v)], _, _ => exact combine_wrap (hsorted name v)
  | (name, v) :: second :: others, _, hfresh =>
      have hfirst : Members.overlay [] (extend name event v) =
          (combine event).overlay [(name, v)] :=
        Members.ofEntries_of_sorted (hsorted name v)
      have hall : ∀ entry ∈ [(name, v)] ++ second :: others,
          (combine event).get? entry.1 = none := hfresh
      have hothers := foldl_carried hall
      rw [← hfirst] at hothers
      exact hothers

end Handoff

end WorkPlan

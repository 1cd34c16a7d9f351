import Mathlib.Tactic
import WorkPlan.Proofs.HandedOn
import WorkPlan.Proofs.Storing

/-!
# Outputs in sight

A stage sees the outputs that the results of its event wrap.  In a list of results the later
ones come first, so that under a name there is what the last result wraps that wraps anything
under it.  Results that wrap no object are passed over.
-/

namespace WorkPlan.Handoff

open Json

/-- The result has an object under `Payload`, and in that object the value under the name. -/
def Wraps (result : Value) (key : String) (v : Value) : Prop :=
  ∃ members, result.get? "Payload" = some (.object members) ∧ Members.get? key members = some v

/-- The result has no object under `Payload`. -/
def Bare (result : Value) : Prop :=
  ∀ members, result.get? "Payload" ≠ some (.object members)

/-- A single result shows what it wraps.  A list shows under a name what the last of its
results wraps that wraps anything under the name.  Any other event shows nothing. -/
def InSight (event : Value) (key : String) (v : Value) : Prop :=
  match event with
  | .object members => Wraps (.object members) key v
  | .array results => ∃ before result after, results = before ++ result :: after ∧
      Wraps result key v ∧ ∀ later ∈ after, ∀ w, ¬ Wraps later key w
  | _ => False

variable {event result : Value} {results : List Value} {key : String} {v : Value}

/-! ## One result -/

theorem get?_carried_eq_some_iff :
    (carried result).get? key = some v ↔ Wraps result key v := by
  unfold carried Wraps
  split
  next members hpayload => simp [hpayload]
  next hpayload =>
    constructor
    · intro hnone
      cases hnone
    · rintro ⟨members, hmembers, -⟩
      exact absurd hmembers (hpayload members)

theorem get?_carried_eq_none_iff :
    (carried result).get? key = none ↔ ∀ w, ¬ Wraps result key w := by
  rw [Option.eq_none_iff_forall_ne_some]
  exact forall_congr' fun w => not_congr get?_carried_eq_some_iff

theorem carried_of_bare (hbare : Bare result) : carried result = [] := by
  unfold carried
  split
  next members hpayload => exact absurd hpayload (hbare members)
  next => rfl

theorem normal_carried (hresult : result.Normal) : (Value.object (carried result)).Normal := by
  unfold carried
  split
  next members hpayload =>
    cases result with
    | object outer =>
        obtain ⟨hsorted, houter⟩ := hresult
        have hmem : ("Payload", Value.object members) ∈ outer :=
          (Members.mem_iff_get? hsorted.keys_nodup).mpr hpayload
        exact Value.normalMembers_iff.mp houter _ hmem
    | _ => cases hpayload
  next => exact ⟨.nil, trivial⟩

theorem normal_overlay
    {under added : Members Value} (hunder : (Value.object under).Normal)
    (hadded : (Value.object added).Normal) :
    (Value.object (under.overlay added)).Normal := by
  refine ⟨hunder.1.overlay added, Value.normalMembers_iff.mpr ?_⟩
  intro entry hentry
  rcases Members.mem_of_mem_overlay hentry with hentry | hentry
  · exact Value.normalMembers_iff.mp hunder.2 entry hentry
  · exact Value.normalMembers_iff.mp hadded.2 entry hentry

/-! ## One result after others -/

theorem inSight_concat_iff :
    InSight (.array (results ++ [result])) key v ↔
      Wraps result key v ∨
        (∀ w, ¬ Wraps result key w) ∧ InSight (.array results) key v := by
  constructor
  · rintro ⟨before, found, after, hresults, hwraps, hlater⟩
    rcases List.eq_nil_or_concat' after with rfl | ⟨after, last, rfl⟩
    · obtain ⟨-, hlast⟩ := List.append_inj' hresults rfl
      cases hlast
      exact Or.inl hwraps
    · rw [← List.cons_append, ← List.append_assoc] at hresults
      obtain ⟨rfl, hlast⟩ := List.append_inj' hresults rfl
      cases hlast
      refine Or.inr ⟨hlater result (by simp), before, found, after, rfl, hwraps, ?_⟩
      exact fun later hmem => hlater later (List.mem_append_left _ hmem)
  · rintro (hwraps | ⟨hnone, before, found, after, rfl, hwraps, hlater⟩)
    · exact ⟨results, result, [], rfl, hwraps, nofun⟩
    · refine ⟨before, found, after ++ [result], by simp, hwraps, ?_⟩
      intro later hmem
      rcases List.mem_append.mp hmem with hmem | hmem
      · exact hlater later hmem
      · cases List.mem_singleton.mp hmem
        exact hnone

theorem combine_append (first second : List Value) :
    combine (.array (first ++ second)) =
      (combine (.array first)).overlay (combine (.array second)) := by
  induction second using List.reverseRecOn with
  | nil => simp [combine]
  | append_singleton second result ih =>
      rw [← List.append_assoc, combine_concat, combine_concat, ih]
      exact Members.overlay_assoc (combine_sorted _) (combine_sorted _) _

/-! ## All results -/

theorem get?_combine_array_iff (hresults : ∀ result ∈ results, result.Normal) :
    (combine (.array results)).get? key = some v ↔ InSight (.array results) key v := by
  -- The last result is taken off, since it is laid over all others.
  induction results using List.reverseRecOn with
  | nil => simp [combine, InSight]
  | append_singleton before result ih =>
      rw [List.forall_mem_append, List.forall_mem_singleton] at hresults
      obtain ⟨hbefore, hresult⟩ := hresults
      have hcarried : (carried result).Sorted := (normal_carried hresult).1
      rw [combine_concat, Members.get?_overlay_of_nodup hcarried.keys_nodup,
        Option.or_eq_some_iff, get?_carried_eq_some_iff, get?_carried_eq_none_iff, ih hbefore,
        inSight_concat_iff]

theorem get?_combine_iff (hevent : event.Normal) :
    (combine event).get? key = some v ↔ InSight event key v := by
  cases event with
  | array results => exact get?_combine_array_iff (Value.normalItems_iff.mp hevent)
  | object members =>
      rw [combine, Members.ofEntries_of_sorted (normal_carried hevent).1]
      exact get?_carried_eq_some_iff
  | _ => simp [combine, InSight]

theorem exists_inSight_array_iff :
    (∃ v, InSight (.array results) key v) ↔ ∃ result ∈ results, ∃ v, Wraps result key v := by
  induction results using List.reverseRecOn with
  | nil => simp [InSight]
  | append_singleton before last ih =>
      by_cases hlast : ∃ v, Wraps last key v
      · obtain ⟨v, hwraps⟩ := hlast
        exact ⟨fun _ => ⟨last, by simp, v, hwraps⟩,
          fun _ => ⟨v, inSight_concat_iff.mpr (Or.inl hwraps)⟩⟩
      · have hnone : ∀ w, ¬ Wraps last key w := not_exists.mp hlast
        simp [inSight_concat_iff, hnone, ih]

theorem exists_inSight_iff :
    (∃ v, InSight event key v) ↔
      (∃ v, Wraps event key v) ∨
        ∃ results, event = .array results ∧ ∃ result ∈ results, ∃ v, Wraps result key v := by
  cases event with
  | array results => simp [exists_inSight_array_iff, Wraps, Value.get?]
  | object members => simp [InSight]
  | _ => simp [InSight, Wraps, Value.get?]

theorem combine_of_bare (hresults : ∀ result ∈ results, Bare result) :
    combine (.array results) = [] := by
  induction results using List.reverseRecOn with
  | nil => rfl
  | append_singleton before result ih =>
      rw [List.forall_mem_append, List.forall_mem_singleton] at hresults
      obtain ⟨hbefore, hresult⟩ := hresults
      rw [combine_concat, carried_of_bare hresult, Members.overlay_nil, ih hbefore]

theorem combine_bare_between
    {bare : List Value} (hbare : ∀ result ∈ bare, Bare result) (before after : List Value) :
    combine (.array (before ++ bare ++ after)) = combine (.array (before ++ after)) := by
  rw [combine_append, combine_append, combine_of_bare hbare, Members.overlay_nil,
    ← combine_append]

theorem normal_combine_array (hresults : ∀ result ∈ results, result.Normal) :
    (Value.object (combine (.array results))).Normal := by
  induction results using List.reverseRecOn with
  | nil => exact ⟨.nil, trivial⟩
  | append_singleton before result ih =>
      rw [List.forall_mem_append, List.forall_mem_singleton] at hresults
      obtain ⟨hbefore, hresult⟩ := hresults
      rw [combine_concat]
      exact normal_overlay (ih hbefore) (normal_carried hresult)

theorem normal_combine (hevent : event.Normal) : (Value.object (combine event)).Normal := by
  cases event with
  | array results => exact normal_combine_array (Value.normalItems_iff.mp hevent)
  | object members =>
      rw [combine, Members.ofEntries_of_sorted (normal_carried hevent).1]
      exact normal_carried hevent
  | _ => exact ⟨.nil, trivial⟩

/-- The combined outputs of an event are an object again, which has a name exactly when the
event is a result, or a list with a result, that wraps something under the name, and its value
is the one in sight.  One list after another is combined by laying the second over the first,
bare results count nowhere, and outputs that are wrapped come back. -/
theorem combine_shows_last
    {event : Value} (hevent : event.Normal) (key : String)
    (first second : List Value) {bare : List Value} (hbare : ∀ result ∈ bare, Bare result)
    {outputs : Members Value} (houtputs : outputs.Sorted) :
    (Value.object (combine event)).Normal ∧
      (((combine event).get? key).isSome ↔
        (∃ v, Wraps event key v) ∨
          ∃ results, event = .array results ∧ ∃ result ∈ results, ∃ v, Wraps result key v) ∧
      (∀ v, (combine event).get? key = some v ↔ InSight event key v) ∧
      combine (.array (first ++ second)) =
        (combine (.array first)).overlay (combine (.array second)) ∧
      (combine (.array (first ++ second))).get? key =
        ((combine (.array second)).get? key).or ((combine (.array first)).get? key) ∧
      combine (.array (first ++ bare ++ second)) = combine (.array (first ++ second)) ∧
      combine (wrap outputs) = outputs ∧
      combine (.array [wrap outputs]) = outputs := by
  have hsight : ∀ v, (combine event).get? key = some v ↔ InSight event key v :=
    fun _ => get?_combine_iff hevent
  refine ⟨normal_combine hevent, ?_, hsight, combine_append first second, ?_,
    combine_bare_between hbare first second, combine_wrap houtputs, ?_⟩
  · rw [Option.isSome_iff_exists, ← exists_inSight_iff]
    exact exists_congr hsight
  · rw [combine_append, Members.get?_overlay_of_nodup (combine_sorted _).keys_nodup]
  · calc
      combine (.array [wrap outputs]) = combine (wrap outputs) := rfl
      _ = outputs := combine_wrap houtputs

/-- Between two results with one name stand a text and a result that wraps a text. -/
theorem combine_shows_last_mixed :
    let early := wrap [("bye", .null), ("hi", .bool false)]
    let late := wrap [("hi", .bool true)]
    let bare : List Value := [.string "hi", .object [("Payload", .string "hi")]]
    let event : Value := .array ([early] ++ bare ++ [late])
    event.Normal ∧ (∀ result ∈ bare, Bare result) ∧
      Members.Sorted [("bye", Value.null), ("hi", .bool true)] ∧
      InSight event "hi" (.bool true) ∧ ¬ InSight event "hi" (.bool false) ∧
      combine event = (combine (.array [early])).overlay (combine (.array [late])) ∧
      combine event = combine (wrap [("bye", .null), ("hi", .bool true)]) := by
  intro early late bare event
  have hearly : Members.Sorted [("bye", Value.null), ("hi", .bool false)] :=
    Members.sorted_ofEntries [("bye", Value.null), ("hi", .bool false)]
  have hevent : event.Normal := by
    simpa [event, early, late, bare, wrap, Value.Normal, Value.NormalItems,
      Value.NormalMembers, Members.Sorted] using hearly
  have hbare : ∀ result ∈ bare, Bare result := by
    simp [bare, Bare, Value.get?, Members.get?]
  have houtputs : Members.Sorted [("bye", Value.null), ("hi", .bool true)] :=
    Members.sorted_ofEntries [("bye", Value.null), ("hi", .bool true)]
  obtain ⟨-, -, hsight, hlaid, -, hpassed, hback, -⟩ :=
    combine_shows_last hevent "hi" [early] [late] hbare houtputs
  refine ⟨hevent, hbare, houtputs, (hsight _).mp rfl, ?_, hpassed.trans hlaid, ?_⟩
  · intro hearly
    have hfound := (hsight _).mpr hearly
    cases hfound
  · rw [hback, hpassed]
    rfl

end WorkPlan.Handoff

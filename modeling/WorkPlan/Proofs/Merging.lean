import Mathlib.Tactic
import WorkPlan.Proofs.HandedOn

/-!
# Branches that hand on the same event

Every branch of a parallel stage hands on all that it received next to its own result, and
the branches are laid over one another in turn.  A name that was received before is thus
there once more in every later branch, with the value that it had.  A result is in sight
after the stage when its name was not received, or when its branch is the last one.
-/

namespace WorkPlan.Handoff

open Json

/-- The results of tasks that all received the same event. -/
def sideBySide (event : Value) (outputs : List (String × Value)) : Value :=
  .array (outputs.map fun (name, v) => wrap (extend name event v))

/-- Every result is in sight under its name, what was received under other names is as it
was, and nothing else is there. -/
structure KeepsAll
    (event : Value) (outputs : List (String × Value)) (combined : Members Value) : Prop where
  own : ∀ name v, (name, v) ∈ outputs → combined.get? name = some v
  received : ∀ key, key ∉ outputs.map Prod.fst →
    combined.get? key = (combine event).get? key

/-- Another value was received under the name of the result. -/
def Outdated (event : Value) (entry : String × Value) : Prop :=
  ∃ old, (combine event).get? entry.1 = some old ∧ old ≠ entry.2

variable {event : Value} {outputs before : List (String × Value)} {name : String} {v : Value}

/-! ## Lookups -/

theorem get?_extend (name key : String) (event v : Value) :
    (extend name event v).get? key =
      if key = name then some v else (combine event).get? key :=
  Members.get?_insert name key v (combine event)

theorem get?_combine_append
    (event : Value) (before : List (String × Value)) (name : String) (v : Value) (key : String) :
    (combine (sideBySide event (before ++ [(name, v)]))).get? key =
      if key = name then some v
      else ((combine event).get? key).or ((combine (sideBySide event before)).get? key) := by
  have hsorted : (extend name event v).Sorted := (combine_sorted event).insert name v
  have hlast : combine (sideBySide event (before ++ [(name, v)])) =
      (combine (sideBySide event before)).overlay (extend name event v) := by
    rw [sideBySide, List.map_append]
    exact combine_concat _ _
  rw [hlast, Members.get?_overlay_of_nodup hsorted.keys_nodup, get?_extend]
  split <;> simp

/-- Under a name that was not received there is the result of the last branch of the name. -/
theorem get?_combine_of_notReceived
    {key : String} (hnew : (combine event).get? key = none) (outputs : List (String × Value)) :
    (combine (sideBySide event outputs)).get? key = Members.get? key outputs.reverse := by
  -- The last branch is taken off, since it is laid over all others.
  induction outputs using List.reverseRecOn with
  | nil => rfl
  | append_singleton before entry ih =>
      obtain ⟨name, v⟩ := entry
      rw [get?_combine_append, hnew, Option.none_or, ih, List.reverse_append]
      rfl

/-- What was received counts for all branches but the last. -/
theorem get?_combine
    (hnames : (before.map Prod.fst).Nodup) (name : String) (v : Value) (key : String) :
    (combine (sideBySide event (before ++ [(name, v)]))).get? key =
      if key = name then some v
      else ((combine event).get? key).or (Members.get? key before) := by
  rw [get?_combine_append]
  cases hreceived : (combine event).get? key with
  | some old => simp
  | none =>
      rw [get?_combine_of_notReceived hreceived, Members.get?_reverse_of_nodup hnames]

/-! ## When all results are kept -/

theorem names_append
    (hnames : ((before ++ [(name, v)]).map Prod.fst).Nodup) :
    (before.map Prod.fst).Nodup ∧ name ∉ before.map Prod.fst := by
  rw [List.map_append, List.nodup_append] at hnames
  obtain ⟨hbefore, -, hapart⟩ := hnames
  exact ⟨hbefore, fun hmem => hapart name hmem name (by simp) rfl⟩

/-- Under the name of a branch before the last there is what was received, or else the
result of the branch. -/
theorem get?_combine_of_mem
    (hnames : ((before ++ [(name, v)]).map Prod.fst).Nodup)
    {entry : String × Value} (hentry : entry ∈ before) :
    (combine (sideBySide event (before ++ [(name, v)]))).get? entry.1 =
      some (((combine event).get? entry.1).getD entry.2) := by
  obtain ⟨hbefore, hlast⟩ := names_append hnames
  have hne : entry.1 ≠ name := fun hsame => hlast (hsame ▸ List.mem_map_of_mem hentry)
  have hown : Members.get? entry.1 before = some entry.2 :=
    (Members.mem_iff_get? hbefore).mp hentry
  rw [get?_combine hbefore, if_neg hne, hown]
  cases (combine event).get? entry.1 <;> rfl

theorem getD_of_not_outdated {entry : String × Value} (hcurrent : ¬ Outdated event entry) :
    ((combine event).get? entry.1).getD entry.2 = entry.2 := by
  cases hreceived : (combine event).get? entry.1 with
  | none => rfl
  | some old =>
      by_contra hne
      exact hcurrent ⟨old, hreceived, hne⟩

theorem keepsAll_of_append
    (hnames : ((before ++ [(name, v)]).map Prod.fst).Nodup)
    (hcurrent : ∀ entry ∈ before, ¬ Outdated event entry) :
    KeepsAll event (before ++ [(name, v)])
      (combine (sideBySide event (before ++ [(name, v)]))) := by
  obtain ⟨hbefore, hlast⟩ := names_append hnames
  constructor
  · intro key w hmem
    rcases List.mem_append.mp hmem with hmem | hmem
    · rw [get?_combine_of_mem hnames hmem, getD_of_not_outdated (hcurrent _ hmem)]
    · cases List.mem_singleton.mp hmem
      rw [get?_combine hbefore, if_pos rfl]
  · intro key hother
    rw [List.map_append, List.mem_append, not_or] at hother
    have hne : key ≠ name := by simpa using hother.2
    rw [get?_combine hbefore, if_neg hne, Members.get?_eq_none_iff.mpr hother.1, Option.or_none]

theorem keepsAll_append_iff
    (hnames : ((before ++ [(name, v)]).map Prod.fst).Nodup) :
    KeepsAll event (before ++ [(name, v)])
        (combine (sideBySide event (before ++ [(name, v)]))) ↔
      ∀ entry ∈ before, ¬ Outdated event entry := by
  refine ⟨?_, keepsAll_of_append hnames⟩
  rintro hkeeps entry hentry ⟨old, hold, hne⟩
  have hown := hkeeps.own entry.1 entry.2 (List.mem_append_left _ hentry)
  rw [get?_combine_of_mem hnames hentry, hold] at hown
  exact hne (Option.some.inj hown)

theorem keepsAll_of_current
    (hne : outputs ≠ []) (hnames : (outputs.map Prod.fst).Nodup)
    (hcurrent : ∀ entry ∈ outputs, ¬ Outdated event entry) :
    KeepsAll event outputs (combine (sideBySide event outputs)) := by
  obtain ⟨before, ⟨name, v⟩, rfl⟩ := (List.eq_nil_or_concat' outputs).resolve_left hne
  exact keepsAll_of_append hnames fun entry hentry =>
    hcurrent entry (List.mem_append_left _ hentry)

/-! ## The order of the branches -/

/-- What keeps everything is determined by the results, in whatever order they stand. -/
theorem eq_of_keepsAll
    {outputs' : List (String × Value)} (hperm : outputs'.Perm outputs)
    {combined combined' : Members Value} (hsorted : combined.Sorted)
    (hsorted' : combined'.Sorted) (hkeeps : KeepsAll event outputs combined)
    (hkeeps' : KeepsAll event outputs' combined') :
    combined' = combined := by
  apply hsorted'.ext hsorted
  intro key
  by_cases hkey : key ∈ outputs.map Prod.fst
  · obtain ⟨⟨_, v⟩, hmem, rfl⟩ := List.mem_map.mp hkey
    rw [hkeeps.own _ v hmem, hkeeps'.own _ v (hperm.mem_iff.mpr hmem)]
  · have hkey' : key ∉ outputs'.map Prod.fst := fun hmem =>
      hkey ((hperm.map Prod.fst).mem_iff.mp hmem)
    rw [hkeeps.received key hkey, hkeeps'.received key hkey']

theorem not_outdated_of_orderFree
    (hnames : (outputs.map Prod.fst).Nodup)
    (hfree : ∀ outputs', outputs'.Perm outputs →
      combine (sideBySide event outputs') = combine (sideBySide event outputs))
    (hmany : outputs.length ≠ 1) {entry : String × Value} (hentry : entry ∈ outputs) :
    ¬ Outdated event entry := by
  rintro ⟨old, hold, hne⟩
  obtain ⟨name, v⟩ := entry
  obtain ⟨before, after, rfl⟩ := List.append_of_mem hentry
  have hsome : before ++ after ≠ [] := by
    intro hnone
    have hlength := congrArg List.length hnone
    simp only [List.length_append, List.length_cons, List.length_nil] at hlength hmany
    omega
  -- Once the branch is the last one, and once the first of several.
  have hlast : (before ++ after ++ [(name, v)]).Perm (before ++ (name, v) :: after) := by
    rw [List.append_assoc]
    exact List.Perm.append_left before List.perm_append_comm
  have hfirst : ((name, v) :: (before ++ after)).Perm (before ++ (name, v) :: after) :=
    List.perm_middle.symm
  have hsame := (hfree _ hfirst).trans (hfree _ hlast).symm
  obtain ⟨others, ⟨name', v'⟩, hothers⟩ := (List.eq_nil_or_concat' _).resolve_left hsome
  have hnames' : (((name, v) :: others ++ [(name', v')]).map Prod.fst).Nodup := by
    rw [List.cons_append, ← hothers]
    exact (hfirst.map Prod.fst).nodup_iff.mpr hnames
  have hhidden : (combine (sideBySide event ((name, v) :: others ++ [(name', v')]))).get? name =
      some (((combine event).get? name).getD v) :=
    get?_combine_of_mem hnames' List.mem_cons_self
  rw [List.cons_append, ← hothers, hsame, get?_combine_append, if_pos rfl, hold] at hhidden
  exact hne (Option.some.inj hhidden).symm

theorem orderFree_iff
    (hne : outputs ≠ []) (hnames : (outputs.map Prod.fst).Nodup) (event : Value) :
    (∀ outputs', outputs'.Perm outputs →
        combine (sideBySide event outputs') = combine (sideBySide event outputs)) ↔
      outputs.length = 1 ∨ ∀ entry ∈ outputs, ¬ Outdated event entry := by
  constructor
  · intro hfree
    rw [or_iff_not_imp_left]
    exact fun hmany entry hentry => not_outdated_of_orderFree hnames hfree hmany hentry
  · rintro (hone | hcurrent) outputs' hperm
    · obtain ⟨entry, rfl⟩ := List.length_eq_one_iff.mp hone
      rw [List.perm_singleton.mp hperm]
    · have hne' : outputs' ≠ [] := fun hnil => hne (List.perm_nil.mp (hnil ▸ hperm.symm))
      have hkeeps := keepsAll_of_current hne hnames hcurrent
      have hkeeps' := keepsAll_of_current hne' ((hperm.map Prod.fst).nodup_iff.mpr hnames)
        fun entry hentry => hcurrent entry (hperm.mem_iff.mp hentry)
      exact eq_of_keepsAll hperm (combine_sorted _) (combine_sorted _) hkeeps hkeeps'

/-- Of branches with different names, a combined event keeps all results and all that was
received exactly when no branch but the last has a name under which another value was
received.  The order of the branches does not count exactly when there is one branch alone
or no branch at all has such a name.  In any case the last result is kept, and under every
other name what was received comes before the results. -/
theorem combine_sideBySide_keepsAll_iff
    (hne : outputs ≠ []) (hnames : (outputs.map Prod.fst).Nodup) (event : Value) :
    (KeepsAll event outputs (combine (sideBySide event outputs)) ↔
      ∀ entry ∈ outputs.dropLast, ¬ Outdated event entry) ∧
    ((∀ outputs', outputs'.Perm outputs →
        combine (sideBySide event outputs') = combine (sideBySide event outputs)) ↔
      outputs.length = 1 ∨ ∀ entry ∈ outputs, ¬ Outdated event entry) ∧
    ∀ key, (combine (sideBySide event outputs)).get? key =
      if key = (outputs.getLast hne).1 then some (outputs.getLast hne).2
      else ((combine event).get? key).or (Members.get? key outputs) := by
  refine ⟨?_, orderFree_iff hne hnames event, ?_⟩
  all_goals
    obtain ⟨before, ⟨name, v⟩, rfl⟩ := (List.eq_nil_or_concat' outputs).resolve_left hne
  · rw [List.dropLast_concat]
    exact keepsAll_append_iff hnames
  · intro key
    rw [List.getLast_concat, get?_combine (names_append hnames).1, Members.get?_append]
    by_cases hkey : key = name
    · simp [hkey]
    · simp [hkey, Members.get?]

/-- A name was received that only the last branch has. -/
theorem combine_sideBySide_keepsAll_last :
    [("left", Value.nat 1), ("right", Value.nat 2)] ≠ [] ∧
    ([("left", Value.nat 1), ("right", Value.nat 2)].map Prod.fst).Nodup ∧
    KeepsAll (wrap [("load", .null), ("right", .nat 0)]) [("left", .nat 1), ("right", .nat 2)]
      (combine (sideBySide (wrap [("load", .null), ("right", .nat 0)])
        [("left", .nat 1), ("right", .nat 2)])) := by
  have hne : [("left", Value.nat 1), ("right", Value.nat 2)] ≠ [] := List.cons_ne_nil _ _
  have hnames : ([("left", Value.nat 1), ("right", Value.nat 2)].map Prod.fst).Nodup := by
    decide
  refine ⟨hne, hnames, (combine_sideBySide_keepsAll_iff hne hnames _).1.mpr ?_⟩
  intro entry hentry
  obtain rfl := List.mem_singleton.mp hentry
  rintro ⟨old, hold, -⟩
  cases hold

/-- The value that was received under the name of the first branch hides its result, and in
the other order it does not. -/
theorem not_keepsAll_received :
    combine (sideBySide (wrap [("a", .nat 0)]) [("a", .nat 1), ("b", .nat 2)]) =
      [("a", .nat 0), ("b", .nat 2)] ∧
    combine (sideBySide (wrap [("a", .nat 0)]) [("b", .nat 2), ("a", .nat 1)]) =
      [("a", .nat 1), ("b", .nat 2)] ∧
    ¬ KeepsAll (wrap [("a", .nat 0)]) [("a", .nat 1), ("b", .nat 2)]
      (combine (sideBySide (wrap [("a", .nat 0)]) [("a", .nat 1), ("b", .nat 2)])) := by
  refine ⟨rfl, rfl, ?_⟩
  intro hkeeps
  have hown := hkeeps.own "a" (.nat 1) List.mem_cons_self
  have hold : (combine (sideBySide (wrap [("a", .nat 0)])
      [("a", .nat 1), ("b", .nat 2)])).get? "a" = some (.nat 0) := rfl
  rw [hold] at hown
  cases hown

end WorkPlan.Handoff

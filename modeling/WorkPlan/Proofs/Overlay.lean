import Mathlib.Data.String.Basic
import Mathlib.Tactic
import WorkPlan.Data.Keyed

/-!
# Looking up in members that were laid over others

A lookup finds the last of the added entries of a name, or else what lay under them.
Members in the order of their keys are the same when all lookups are.
-/

namespace WorkPlan.Members

universe u

variable {α : Type u}

theorem get?_append (key : String) (first second : List (String × α)) :
    get? key (first ++ second) = (get? key first).or (get? key second) := by
  induction first with
  | nil => rfl
  | cons entry first ih =>
      obtain ⟨k, v⟩ := entry
      by_cases hkey : key = k
      · simp [get?, hkey]
      · simp [get?, hkey, ih]

theorem get?_overlay (key : String) (under : Members α) (added : List (String × α)) :
    get? key (under.overlay added) = (get? key added.reverse).or (get? key under) := by
  induction added generalizing under with
  | nil => rfl
  | cons entry added ih =>
      obtain ⟨k, v⟩ := entry
      rw [overlay_cons, ih, get?_insert, List.reverse_cons, get?_append, Option.or_assoc]
      by_cases hkey : key = k
      · simp [get?, hkey]
      · simp [get?, hkey]

theorem get?_eq_none_iff {key : String} {members : List (String × α)} :
    get? key members = none ↔ key ∉ members.map Prod.fst := by
  induction members with
  | nil => simp
  | cons entry members ih =>
      obtain ⟨k, v⟩ := entry
      by_cases hkey : key = k
      · simp [get?, hkey]
      · simp [get?, hkey, ih]

theorem lookup_eq_get? (key : String) (members : List (String × α)) :
    members.lookup key = get? key members := by
  induction members with
  | nil => rfl
  | cons entry members ih =>
      obtain ⟨k, v⟩ := entry
      by_cases hkey : key = k
      · simp [get?, hkey]
      · have hne : (key == k) = false := by simpa using hkey
        simp [get?, List.lookup_cons, hkey, hne, ih]

theorem get?_isSome_iff {key : String} {members : List (String × α)} :
    (get? key members).isSome ↔ key ∈ members.map Prod.fst := by
  rw [← not_iff_not, Option.not_isSome_iff_eq_none, get?_eq_none_iff]

theorem get?_overlay_of_notMem
    {key : String} {added : List (String × α)} (hother : key ∉ added.map Prod.fst)
    (under : Members α) :
    get? key (under.overlay added) = get? key under := by
  have hnone : get? key added.reverse = none := by
    rw [get?_eq_none_iff, List.map_reverse, List.mem_reverse]
    exact hother
  rw [get?_overlay, hnone, Option.none_or]

theorem get?_overlay_isSome_iff
    {key : String} {under : Members α} {added : List (String × α)} :
    (get? key (under.overlay added)).isSome ↔
      (get? key under).isSome ∨ key ∈ added.map Prod.fst := by
  rw [get?_overlay, Option.isSome_or, Bool.or_eq_true, get?_isSome_iff, List.map_reverse,
    List.mem_reverse, or_comm]

theorem get?_reverse_of_nodup
    {members : List (String × α)} (hnodup : (members.map Prod.fst).Nodup) (key : String) :
    get? key members.reverse = get? key members := by
  induction members with
  | nil => rfl
  | cons entry members ih =>
      obtain ⟨k, v⟩ := entry
      simp only [List.map_cons, List.nodup_cons] at hnodup
      rw [List.reverse_cons, get?_append, ih hnodup.2]
      by_cases hkey : key = k
      · subst hkey
        rw [get?_eq_none_iff.mpr hnodup.1, Option.none_or]
        simp [get?]
      · simp [get?, hkey]

theorem get?_overlay_of_nodup
    {added : List (String × α)} (hnodup : (added.map Prod.fst).Nodup)
    (key : String) (under : Members α) :
    get? key (under.overlay added) = (get? key added).or (get? key under) := by
  rw [get?_overlay, get?_reverse_of_nodup hnodup]

theorem get?_ofEntries_of_nodup
    {entries : List (String × α)} (hnodup : (entries.map Prod.fst).Nodup) (key : String) :
    get? key (ofEntries entries) = get? key entries := by
  rw [ofEntries, get?_overlay_of_nodup hnodup, get?_nil, Option.or_none]

theorem Sorted.keys_nodup {members : Members α} (hsorted : members.Sorted) :
    (members.map Prod.fst).Nodup := by
  unfold Sorted at hsorted
  rw [List.Nodup, List.pairwise_map]
  exact hsorted.imp fun hlt => ne_of_lt hlt

theorem mem_iff_get?
    {members : List (String × α)} (hnodup : (members.map Prod.fst).Nodup)
    {key : String} {value : α} :
    (key, value) ∈ members ↔ get? key members = some value := by
  induction members with
  | nil => simp
  | cons entry members ih =>
      obtain ⟨k, v⟩ := entry
      simp only [List.map_cons, List.nodup_cons] at hnodup
      rw [List.mem_cons, ih hnodup.2]
      by_cases hkey : key = k
      · subst hkey
        simp [get?, get?_eq_none_iff.mpr hnodup.1, eq_comm]
      · simp [get?, hkey]

theorem perm_ofEntries
    {entries : List (String × α)} (hnodup : (entries.map Prod.fst).Nodup) :
    (ofEntries entries).Perm entries := by
  have hkeys := (sorted_ofEntries entries).keys_nodup
  apply (List.perm_ext_iff_of_nodup hkeys.of_map hnodup.of_map).mpr
  rintro ⟨key, value⟩
  rw [mem_iff_get? hkeys, mem_iff_get? hnodup, get?_ofEntries_of_nodup hnodup]

theorem mem_keys_ofEntries {key : String} {entries : List (String × α)} :
    key ∈ (ofEntries entries).map Prod.fst ↔ key ∈ entries.map Prod.fst := by
  rw [← get?_isSome_iff, ofEntries, get?_overlay_isSome_iff]
  simp

/-- No entry is lost only when all keys differ. -/
theorem keys_nodup_of_length_ofEntries
    {entries : List (String × α)} (hlength : (ofEntries entries).length = entries.length) :
    (entries.map Prod.fst).Nodup := by
  have hperm : ((ofEntries entries).map Prod.fst).Perm (entries.map Prod.fst).dedup := by
    apply (List.perm_ext_iff_of_nodup (sorted_ofEntries entries).keys_nodup
      (List.nodup_dedup _)).mpr
    intro key
    rw [mem_keys_ofEntries, List.mem_dedup]
  have hdedup : (entries.map Prod.fst).dedup.length = (entries.map Prod.fst).length := by
    rw [← hperm.length_eq, List.length_map, List.length_map, hlength]
  rw [← (List.dedup_sublist _).eq_of_length hdedup]
  exact List.nodup_dedup _

/-- Members in the order of their keys are determined by their lookups. -/
theorem Sorted.ext
    {first second : Members α} (hfirst : first.Sorted) (hsecond : second.Sorted)
    (hsame : ∀ key, get? key first = get? key second) :
    first = second := by
  have hperm : first.Perm second := by
    rw [List.perm_ext_iff_of_nodup hfirst.keys_nodup.of_map hsecond.keys_nodup.of_map]
    rintro ⟨key, value⟩
    rw [mem_iff_get? hfirst.keys_nodup, mem_iff_get? hsecond.keys_nodup, hsame key]
  refine hperm.eq_of_pairwise ?_ hfirst hsecond
  intro a b _ _ hlt hgt
  exact absurd hgt (lt_asymm hlt)

theorem overlay_assoc
    {first second : Members α} (hfirst : first.Sorted) (hsecond : second.Sorted)
    (third : List (String × α)) :
    (first.overlay second).overlay third = first.overlay (second.overlay third) := by
  apply ((hfirst.overlay second).overlay third).ext (hfirst.overlay _)
  intro key
  calc
    get? key ((first.overlay second).overlay third) =
        (get? key third.reverse).or ((get? key second).or (get? key first)) := by
          rw [get?_overlay, get?_overlay_of_nodup hsecond.keys_nodup]
    _ = get? key (first.overlay (second.overlay third)) := by
          rw [get?_overlay_of_nodup (hsecond.overlay third).keys_nodup, get?_overlay,
            Option.or_assoc]

end WorkPlan.Members

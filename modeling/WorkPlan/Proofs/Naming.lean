import Mathlib.Tactic
import WorkPlan.Proofs.Chaining

/-!
# Generated names are told apart

The unique part stands whole at the end of a generated name, so names with different unique
parts differ, whatever is kept of their bases.  The name of a stage has digits from its tenth
character on, where every generated name still has a hyphen, so no step with a generated name
can take the place of a stage.
-/

namespace WorkPlan

/-- A text of 36 characters, with hyphens between its five groups. -/
structure IsUniquePart (unique : String) : Prop where
  length_eq : unique.length = 36
  hyphens : ∀ k ∈ [8, 13, 18, 23], unique.toList[k]? = some '-'

/-- The longest beginning of a base that fits into a limit, with a separator and a unique part
after it. -/
structure LongestKept (base : String) (limit : Nat) (kept : String) : Prop where
  begins : kept.toList <+: base.toList
  fits : kept.length + 1 + 36 ≤ limit
  longest : ∀ other : String, other.toList <+: base.toList → other.length + 1 + 36 ≤ limit →
    other.length ≤ kept.length

/-! ## What stands before the unique part -/

/-- What stands before the unique part of a name that has room for so much of its base. -/
def nameFront (base : String) (room : Nat) : String :=
  if min base.length room = 0 then "" else String.ofList (base.toList.take room) ++ "-"

variable {unique base : String} {limit room : Nat}

theorem uniqueName_eq (unique base : String) (limit : Nat) :
    uniqueName unique base limit = nameFront base (limit - (unique.length + 1)) ++ unique := by
  unfold uniqueName nameFront
  generalize limit - (unique.length + 1) = room
  have hempty : (base.toList.take room).isEmpty = true ↔ min base.length room = 0 := by
    rw [List.isEmpty_iff, ← List.length_eq_zero_iff, List.length_take, String.length_toList,
      Nat.min_comm]
  by_cases hnothing : min base.length room = 0
  · rw [if_pos (hempty.mpr hnothing), if_pos hnothing, String.empty_append]
  · rw [if_neg (mt hempty.mp hnothing), if_neg hnothing]

theorem nameFront_length_le (base : String) (room : Nat) :
    (nameFront base room).length ≤ if room = 0 then 0 else room + 1 := by
  unfold nameFront
  split
  next => simp
  next hkept =>
    have hroom : room ≠ 0 := by omega
    rw [if_neg hroom, String.length_append, String.length_ofList, List.length_take]
    exact Nat.succ_le_succ (Nat.min_le_left _ _)

theorem longestKept_take (hkept : min base.length (limit - 37) ≠ 0) :
    LongestKept base limit (String.ofList (base.toList.take (limit - 37))) where
  begins := by
    rw [String.toList_ofList]
    exact List.take_prefix _ _
  fits := by
    rw [String.length_ofList, List.length_take]
    omega
  longest := by
    intro other hbegins hfits
    have hshorter := hbegins.length_le
    rw [String.length_toList, String.length_toList] at hshorter
    rw [String.length_ofList, List.length_take, String.length_toList]
    omega

/-! ## Names with a unique part -/

theorem IsUniquePart.uniqueName_eq
    (hunique : IsUniquePart unique) (base : String) (limit : Nat) :
    uniqueName unique base limit = nameFront base (limit - 37) ++ unique := by
  rw [WorkPlan.uniqueName_eq, hunique.length_eq]

theorem IsUniquePart.length_le
    (hunique : IsUniquePart unique) (base : String) (limit : Nat) :
    (uniqueName unique base limit).length ≤ max limit 36 := by
  have hfront := nameFront_length_le base (limit - 37)
  rw [hunique.uniqueName_eq, String.length_append, hunique.length_eq]
  split at hfront <;> omega

/-- Two names with unique parts of one length end alike only if these are the same. -/
theorem IsUniquePart.eq_of_uniqueName_eq
    {other otherBase : String} {otherLimit : Nat} (hunique : IsUniquePart unique)
    (hother : IsUniquePart other)
    (hname : uniqueName other otherBase otherLimit = uniqueName unique base limit) :
    other = unique := by
  rw [hother.uniqueName_eq, hunique.uniqueName_eq, ← String.toList_inj, String.toList_append,
    String.toList_append] at hname
  have hlength : other.toList.length = unique.toList.length := by
    rw [String.length_toList, String.length_toList, hother.length_eq, hunique.length_eq]
  exact String.toList_inj.mp (List.append_inj_right' hname hlength)

/-- The hyphen after the second group has at least thirteen characters before it. -/
theorem IsUniquePart.exists_late_hyphen
    (hunique : IsUniquePart unique) (base : String) (limit : Nat) :
    ∃ k, 9 ≤ k ∧ (uniqueName unique base limit).toList[k]? = some '-' := by
  have hhyphen : unique.toList[13]? = some '-' := hunique.hyphens 13 (by decide)
  refine ⟨(nameFront base (limit - 37)).toList.length + 13, by omega, ?_⟩
  rw [hunique.uniqueName_eq, String.toList_append,
    List.getElem?_append_right (Nat.le_add_right _ _), Nat.add_sub_cancel_left, hhyphen]

/-! ## Names of stages -/

theorem parallelStageName_digits
    {index k : Nat} {c : Char} (hk : 9 ≤ k) (hc : (parallelStageName index).toList[k]? = some c) :
    c.isDigit = true := by
  have hname : (parallelStageName index).toList =
      "parallel-".toList ++ Nat.toDigits 10 index := by
    rw [parallelStageName, String.toList_append, Nat.toString_eq_repr, Nat.toList_repr]
  have hfront : "parallel-".toList.length = 9 := by decide
  rw [hname, List.getElem?_append_right (by omega)] at hc
  exact Nat.isDigit_of_mem_toDigits (by decide) (by decide) (List.mem_of_getElem? hc)

theorem IsUniquePart.ne_parallelStageName
    (hunique : IsUniquePart unique) (base : String) (limit index : Nat) :
    uniqueName unique base limit ≠ parallelStageName index := by
  intro hname
  obtain ⟨k, hk, hhyphen⟩ := hunique.exists_late_hyphen base limit
  rw [hname] at hhyphen
  have hdigit : '-'.isDigit = true := parallelStageName_digits hk hhyphen
  exact absurd hdigit (by decide)

/-! ## All generated names -/

/-- A generated name ends with the whole unique part, has before it as much of the base as the
limit leaves room for, and is longer than the limit only if the unique part alone is.  The
names of stages and the generated names with different unique parts are all distinct. -/
theorem uniqueName_told_apart
    (hunique : IsUniquePart unique) (base : String) (limit : Nat) :
    ∃ front, uniqueName unique base limit = front ++ unique ∧
      (uniqueName unique base limit).length ≤ max limit 36 ∧
      (min base.length (limit - 37) = 0 → front = "") ∧
      (min base.length (limit - 37) ≠ 0 →
        ∃ kept, LongestKept base limit kept ∧ front = kept ++ "-") ∧
      (∀ other otherBase otherLimit, IsUniquePart other → other ≠ unique →
        uniqueName other otherBase otherLimit ≠ uniqueName unique base limit) ∧
      (∀ index, uniqueName unique base limit ≠ parallelStageName index) ∧
      ∀ index otherIndex, index ≠ otherIndex →
        parallelStageName index ≠ parallelStageName otherIndex := by
  refine ⟨nameFront base (limit - 37), hunique.uniqueName_eq base limit,
    hunique.length_le base limit, ?_, ?_, ?_, hunique.ne_parallelStageName base limit, ?_⟩
  · intro hnothing
    exact if_pos hnothing
  · intro hkept
    exact ⟨_, longestKept_take hkept, if_neg hkept⟩
  · intro other otherBase otherLimit hother hne hname
    exact hne (hunique.eq_of_uniqueName_eq hother hname)
  · intro index otherIndex hne hname
    exact hne (parallelStageName_injective hname)

/-- The limit counts characters, not bytes: three of them are kept here. -/
theorem uniqueName_told_apart_accented :
    IsUniquePart "5eedc0de-7a3b-4c1d-9e2f-000000000001" ∧
      min "été-indien".length (40 - 37) ≠ 0 ∧
      LongestKept "été-indien" 40 "été" ∧
      uniqueName "5eedc0de-7a3b-4c1d-9e2f-000000000001" "été-indien" 40 =
        "été-" ++ "5eedc0de-7a3b-4c1d-9e2f-000000000001" := by
  have hunique : IsUniquePart "5eedc0de-7a3b-4c1d-9e2f-000000000001" :=
    ⟨by decide, by decide⟩
  have hkept : min "été-indien".length (40 - 37) ≠ 0 := by decide
  obtain ⟨front, hname, -, -, hfront, -⟩ := uniqueName_told_apart hunique "été-indien" 40
  obtain ⟨kept, hlongest, rfl⟩ := hfront hkept
  have heq : kept = "été" := by
    have hlength : kept.length = 3 := by
      have hfits := hlongest.fits
      have hlongest := hlongest.longest "été" (by decide) (by decide)
      have hthree : "été".length = 3 := by decide
      omega
    have hbegins := List.prefix_iff_eq_take.mp hlongest.begins
    rw [String.length_toList, hlength] at hbegins
    exact String.toList_inj.mp (hbegins.trans (by decide))
  subst heq
  exact ⟨hunique, hkept, hlongest, hname⟩

end WorkPlan

import Mathlib.Tactic
import WorkPlan.Decimal.Binary64

/-!
# Integers as floating-point numbers

The float nearest to an integer of 64 bits is finite.  Such an integer has at most 64
digits to the base two, so its scale is small and the rounded part below it has at most
two digits more than a fraction can have.
-/

namespace WorkPlan.Binary64

theorem magnitude_ofMagnitude
    (negative : Bool) {magnitude : Nat} (hmagnitude : magnitude ≤ infiniteBits) :
    (ofMagnitude negative magnitude).magnitude = magnitude := by
  have hbound : magnitude ≤ 9218868437227405312 := hmagnitude
  cases negative
  · simp [ofMagnitude, Binary64.magnitude, signWeight]
    omega
  · simp [ofMagnitude, Binary64.magnitude, signWeight]
    omega

theorem isFinite_ofMagnitude
    (negative : Bool) {magnitude : Nat} (hmagnitude : magnitude < infiniteBits) :
    (ofMagnitude negative magnitude).isFinite = true := by
  simpa [isFinite, magnitude_ofMagnitude negative hmagnitude.le] using hmagnitude

theorem isFinite_ofScaled
    (negative : Bool) {m : Nat} {q : Int}
    (hbound : (q + 1074).toNat * exponentWeight + m < infiniteBits) :
    (ofScaled negative m q).isFinite = true := by
  apply isFinite_ofMagnitude
  rwa [min_eq_right hbound.le]

theorem divRound_le (num den : Nat) : divRound num den ≤ num / den + 1 := by
  unfold divRound
  have hparity : num / den % 2 < 2 := Nat.mod_lt _ (by omega)
  dsimp only
  split
  · omega
  · split <;> omega

/-- An integer has 53 or 54 digits to the base two before its scale, or fewer. -/
theorem scaleOf_one_bounds (n : Nat) :
    (n.log2 : Int) - 53 ≤ scaleOf n 1 ∧ scaleOf n 1 ≤ n.log2 - 52 := by
  have hone : Nat.log2 1 = 0 := by decide
  unfold scaleOf
  dsimp only
  rw [hone]
  split <;> omega

theorem divRound_unscale_one_le (n : Nat) :
    divRound (unscale n 1 (scaleOf n 1)).1 (unscale n 1 (scaleOf n 1)).2 ≤ 2 ^ 54 := by
  obtain ⟨hlow, -⟩ := scaleOf_one_bounds n
  generalize scaleOf n 1 = q at hlow ⊢
  have hlog : n < 2 ^ (n.log2 + 1) := Nat.lt_log2_self
  have hdigits : n.log2 + 1 + (-q).toNat ≤ 54 + q.toNat := by omega
  have hpart : (unscale n 1 q).1 / (unscale n 1 q).2 < 2 ^ 54 := by
    unfold unscale
    rw [Nat.shiftLeft_eq, Nat.shiftLeft_eq, one_mul]
    apply Nat.div_lt_of_lt_mul
    calc
      n * 2 ^ (-q).toNat < 2 ^ (n.log2 + 1) * 2 ^ (-q).toNat := by gcongr
      _ = 2 ^ (n.log2 + 1 + (-q).toNat) := (pow_add 2 _ _).symm
      _ ≤ 2 ^ (54 + q.toNat) := Nat.pow_le_pow_right (by omega) hdigits
      _ = 2 ^ q.toNat * 2 ^ 54 := by rw [pow_add, mul_comm]
  have hround := divRound_le (unscale n 1 q).1 (unscale n 1 q).2
  omega

theorem isFinite_ofInt {i : Int} (hi : i.natAbs < 2 ^ 64) : (ofInt i).isFinite = true := by
  unfold ofInt ofRatio
  by_cases hzero : i.natAbs = 0
  · rw [if_pos hzero]
    exact isFinite_ofMagnitude _ (by decide)
  · rw [if_neg hzero]
    apply isFinite_ofScaled
    have hlog : i.natAbs.log2 < 64 := (Nat.log2_lt hzero).mpr hi
    obtain ⟨-, hscale⟩ := scaleOf_one_bounds i.natAbs
    have hexponent : (scaleOf i.natAbs 1 + 1074).toNat ≤ 1085 := by omega
    have hpart := divRound_unscale_one_le i.natAbs
    calc
      _ ≤ 1085 * exponentWeight + 2 ^ 54 :=
          Nat.add_le_add (Nat.mul_le_mul_right _ hexponent) hpart
      _ < infiniteBits := by decide

end WorkPlan.Binary64

import Mathlib.Data.Int.Log
import Mathlib.Tactic
import WorkPlan.Decimal.Basic
import WorkPlan.Proofs.Finite

/-!
# Rounding decimals back

Rounding depends on the quotient alone, not on the numbers that it is given by: the scale is
the binary exponent of the quotient, and a common factor cancels.  So a decimal may take on
or lose zeros at its end, and a quotient that has a pattern of its own is rounded to this
pattern.  Every decimal that is chosen for a finite number therefore reads back as it: the
search tests this, and what it falls back on is the exact value.
-/

namespace WorkPlan

namespace Binary64

/-! ## Magnitudes and signs -/

theorem ofMagnitude_magnitude (x : Binary64) : ofMagnitude x.negative x.magnitude = x := by
  obtain ⟨bits⟩ := x
  have hbits : bits.toNat < 2 ^ 64 := bits.toNat_lt
  have hweight : signWeight = 2 ^ 63 := rfl
  have hsplit : (if decide (signWeight ≤ bits.toNat) then signWeight else 0) +
      bits.toNat % signWeight = bits.toNat := by
    rw [hweight]
    by_cases hsign : 2 ^ 63 ≤ bits.toNat
    · simp only [hsign, decide_true, if_true]
      omega
    · simp only [hsign, decide_false, Bool.false_eq_true, if_false]
      omega
  rw [ofMagnitude, negative, magnitude, hsplit, UInt64.ofNat_toNat]

/-! ## Scales -/

theorem cast_unscale (num den : Nat) (q : Int) :
    ((unscale num den q).1 : ℚ) / (unscale num den q).2 = num / den / 2 ^ q := by
  rw [unscale, Nat.shiftLeft_eq, Nat.shiftLeft_eq]
  push_cast
  obtain ⟨k, rfl | rfl⟩ := q.eq_nat_or_neg
  · simp [div_div]
  · simp [div_eq_mul_inv]
    ring

theorem unscale_den_pos (num : Nat) {den : Nat} (hden : 0 < den) (q : Int) :
    0 < (unscale num den q).2 := by
  simp only [unscale, Nat.shiftLeft_eq]
  exact Nat.mul_pos hden (by positivity)

section Scales

variable {num den : Nat} (hnum : 0 < num) (hden : 0 < den)
include hnum hden

-- The numbers have their binary logarithms to one digit, so the quotient has its to two.
theorem le_log_div : (num.log2 : Int) - den.log2 - 1 ≤ Int.log 2 ((num : ℚ) / den) := by
  have hnumber : (2 : ℚ) ^ num.log2 ≤ num := by exact_mod_cast Nat.log2_self_le hnum.ne'
  have hdivisor : (den : ℚ) ≤ 2 ^ (den.log2 + 1) := by exact_mod_cast Nat.lt_log2_self.le
  rw [← Int.zpow_le_iff_le_log (by decide) (by positivity), le_div_iff₀ (by positivity)]
  calc
    ((2 : ℕ) : ℚ) ^ ((num.log2 : Int) - den.log2 - 1) * den ≤
        2 ^ ((num.log2 : Int) - den.log2 - 1) * 2 ^ (den.log2 + 1) := by
        push_cast
        gcongr
    _ = 2 ^ num.log2 := by
        rw [← zpow_natCast, ← zpow_natCast, ← zpow_add₀ (by norm_num)]
        congr 1
        push_cast
        omega
    _ ≤ num := hnumber

theorem log_div_lt : Int.log 2 ((num : ℚ) / den) < (num.log2 : Int) - den.log2 + 1 := by
  have hnumber : (num : ℚ) < 2 ^ (num.log2 + 1) := by exact_mod_cast Nat.lt_log2_self
  have hdivisor : (2 : ℚ) ^ den.log2 ≤ den := by exact_mod_cast Nat.log2_self_le hden.ne'
  rw [← Int.lt_zpow_iff_log_lt (by decide) (by positivity), div_lt_iff₀ (by positivity)]
  calc
    (num : ℚ) < 2 ^ (num.log2 + 1) := hnumber
    _ = 2 ^ ((num.log2 : Int) - den.log2 + 1) * 2 ^ den.log2 := by
        rw [← zpow_natCast, ← zpow_natCast, ← zpow_add₀ (by norm_num)]
        congr 1
        push_cast
        omega
    _ ≤ ((2 : ℕ) : ℚ) ^ ((num.log2 : Int) - den.log2 + 1) * den := by
        push_cast
        gcongr

theorem unscale_lt_iff (q : Int) :
    (unscale num den q).1 / (unscale num den q).2 < exponentWeight ↔
      Int.log 2 ((num : ℚ) / den) < q + 52 := by
  have hpositive := unscale_den_pos num hden q
  have hcast : (unscale num den q).1 < exponentWeight * (unscale num den q).2 ↔
      (num : ℚ) / den / 2 ^ q < exponentWeight := by
    rw [← cast_unscale, div_lt_iff₀ (by exact_mod_cast hpositive)]
    exact_mod_cast Iff.rfl
  have hweight : (exponentWeight : ℚ) * 2 ^ q = ((2 : ℕ) : ℚ) ^ (q + 52) := by
    rw [show exponentWeight = 2 ^ 52 from rfl, zpow_add₀ (by norm_num)]
    push_cast
    rw [mul_comm]
  rw [Nat.div_lt_iff_lt_mul hpositive, hcast, div_lt_iff₀ (by positivity), hweight,
    Int.lt_zpow_iff_log_lt (by decide) (by positivity)]

/-- The scale is that of the quotient. -/
theorem scaleOf_eq :
    scaleOf num den = max (-1074) (Int.log 2 ((num : ℚ) / den) - 52) := by
  have hlow := le_log_div hnum hden
  have hhigh := log_div_lt hnum hden
  have hguess := unscale_lt_iff hnum hden ((num.log2 : Int) - den.log2 - 52)
  unfold scaleOf
  simp only [hguess]
  split <;> omega

end Scales

/-! ## Quotients -/

theorem divRound_mul_left {k : Nat} (hk : 0 < k) (num den : Nat) :
    divRound (k * num) (k * den) = divRound num den := by
  have hless : 2 * (k * (num % den)) < k * den ↔ 2 * (num % den) < den := by
    rw [mul_left_comm, Nat.mul_lt_mul_left hk]
  have hmore : k * den < 2 * (k * (num % den)) ↔ den < 2 * (num % den) := by
    rw [mul_left_comm, Nat.mul_lt_mul_left hk]
  unfold divRound
  simp only [Nat.mul_div_mul_left _ _ hk, Nat.mul_mod_mul_left, hless, hmore]

theorem divRound_mul_right_self (m : Nat) {den : Nat} (hden : 0 < den) :
    divRound (m * den) den = m := by
  simp [divRound, Nat.mul_div_cancel _ hden, hden]

theorem divRound_congr
    {num den num' den' : Nat} (hden : 0 < den) (hden' : 0 < den')
    (hsame : num * den' = num' * den) :
    divRound num den = divRound num' den' := by
  rw [← divRound_mul_left hden', ← divRound_mul_left hden num', mul_comm den' num, hsame,
    mul_comm num' den, mul_comm den' den]

theorem ofRatio_congr
    (negative : Bool) {num den num' den' : Nat} (hden : 0 < den) (hden' : 0 < den')
    (hsame : num * den' = num' * den) :
    ofRatio negative num den = ofRatio negative num' den' := by
  rcases Nat.eq_zero_or_pos num with rfl | hnum
  · have hzero : num' = 0 := by simpa [hden.ne'] using hsame.symm
    rw [hzero, ofRatio, ofRatio, if_pos rfl, if_pos rfl]
  · have hnum' : 0 < num' := by
      apply Nat.pos_of_ne_zero
      rintro rfl
      rw [zero_mul] at hsame
      exact (Nat.mul_pos hnum hden').ne' hsame
    have hquotient : (num : ℚ) / den = num' / den' := by
      rw [div_eq_div_iff (by positivity) (by positivity)]
      exact_mod_cast hsame
    have hscale : scaleOf num den = scaleOf num' den' := by
      rw [scaleOf_eq hnum hden, scaleOf_eq hnum' hden', hquotient]
    unfold ofRatio
    rw [if_neg hnum.ne', if_neg hnum'.ne', hscale]
    dsimp only
    congr 1
    apply divRound_congr (unscale_den_pos num hden _) (unscale_den_pos num' hden' _)
    simp only [unscale, Nat.shiftLeft_eq]
    rw [mul_mul_mul_comm, hsame, mul_mul_mul_comm]

/-! ## Finite patterns -/

/-- The pattern of the magnitude stands for `m · 2 ^ q`. -/
structure Stands (magnitude m : Nat) (q : Int) : Prop where
  magnitude : magnitude = (q + 1074).toNat * exponentWeight + m
  least : -1074 ≤ q
  greatest : q ≤ 971
  digits : m < 2 * exponentWeight
  leading : q = -1074 ∨ exponentWeight ≤ m

theorem exists_stands_of_isFinite {x : Binary64} (hfinite : x.isFinite = true) :
    ∃ m q, x.read = .finite x.negative m q ∧ Stands x.magnitude m q := by
  have hweight : exponentWeight = 4503599627370496 := rfl
  have hbound : x.magnitude < 2047 * exponentWeight := of_decide_eq_true hfinite
  unfold read
  dsimp only
  rw [hweight] at hbound ⊢
  have hexponent : x.magnitude / 4503599627370496 ≠ 2047 := by omega
  rw [if_neg hexponent]
  by_cases hzero : x.magnitude / 4503599627370496 = 0
  · rw [if_pos hzero]
    refine ⟨_, _, rfl, ?_, by omega, by omega, ?_, Or.inl rfl⟩
    all_goals
      rw [hweight]
      omega
  · rw [if_neg hzero]
    refine ⟨_, _, rfl, ?_, by omega, by omega, ?_, Or.inr ?_⟩
    all_goals
      rw [hweight]
      omega

namespace Stands

variable {magnitude m : Nat} {q : Int}

theorem le_infiniteBits (hstands : Stands magnitude m q) : magnitude ≤ infiniteBits := by
  have hweight : exponentWeight = 4503599627370496 := rfl
  have hinfinite : infiniteBits = 2047 * 4503599627370496 := rfl
  obtain ⟨hmagnitude, hleast, hgreatest, hdigits, -⟩ := hstands
  rw [hweight] at hmagnitude hdigits
  omega

theorem eq_zero_iff (hstands : Stands magnitude m q) : magnitude = 0 ↔ m = 0 := by
  have hweight : exponentWeight = 4503599627370496 := rfl
  obtain ⟨hmagnitude, -, -, -, hleading⟩ := hstands
  rw [hweight] at hmagnitude hleading
  omega

theorem scaleOf_eq (hstands : Stands magnitude m q) (hm : 0 < m) :
    scaleOf (m <<< q.toNat) (1 <<< (-q).toNat) = q := by
  have hnum : 0 < m <<< q.toNat := by
    rw [Nat.shiftLeft_eq]
    exact Nat.mul_pos hm (by positivity)
  have hden : 0 < 1 <<< (-q).toNat := by
    rw [Nat.shiftLeft_eq]
    positivity
  have hquotient : ((m <<< q.toNat : ℕ) : ℚ) / (1 <<< (-q).toNat : ℕ) = m * 2 ^ q := by
    rw [Nat.shiftLeft_eq, Nat.shiftLeft_eq]
    obtain ⟨k, rfl | rfl⟩ := q.eq_nat_or_neg
    · simp
    · simp [div_eq_mul_inv]
  have hpositive : (0 : ℚ) < m * 2 ^ q := by positivity
  have hhigh : Int.log 2 ((m : ℚ) * 2 ^ q) < q + 53 := by
    rw [← Int.lt_zpow_iff_log_lt (by decide) hpositive, add_comm, zpow_add₀ (by norm_num)]
    have hdigits : (m : ℚ) < 9007199254740992 := by exact_mod_cast hstands.digits
    norm_num
    gcongr
  rw [Binary64.scaleOf_eq hnum hden, hquotient]
  obtain hleast | hleading := hstands.leading
  · omega
  · have hlow : q + 52 ≤ Int.log 2 ((m : ℚ) * 2 ^ q) := by
      rw [← Int.zpow_le_iff_le_log (by decide) hpositive, add_comm, zpow_add₀ (by norm_num)]
      have hdigits : (4503599627370496 : ℚ) ≤ m := by exact_mod_cast hleading
      norm_num
      gcongr
    have hleast := hstands.least
    omega

/-- A quotient with a pattern of its own is rounded to it. -/
theorem ofRatio_eq
    (hstands : Stands magnitude m q) (hm : 0 < m) {num den : Nat} (hden : 0 < den)
    (hquotient : num * 1 <<< (-q).toNat = m <<< q.toNat * den) (negative : Bool) :
    ofRatio negative num den = ofMagnitude negative magnitude := by
  have hpower : 0 < 1 <<< (-q).toNat := by
    rw [Nat.shiftLeft_eq]
    positivity
  have hnum : m <<< q.toNat ≠ 0 := by
    rw [Nat.shiftLeft_eq]
    exact (Nat.mul_pos hm (by positivity)).ne'
  have hround : divRound (unscale (m <<< q.toNat) (1 <<< (-q).toNat) q).1
      (unscale (m <<< q.toNat) (1 <<< (-q).toNat) q).2 = m := by
    simp only [unscale, Nat.shiftLeft_eq, one_mul]
    rw [mul_assoc, mul_comm (2 ^ q.toNat)]
    exact divRound_mul_right_self m (by positivity)
  rw [ofRatio_congr negative hden hpower hquotient, ofRatio, if_neg hnum]
  dsimp only
  rw [hstands.scaleOf_eq hm, hround, ofScaled, ← hstands.magnitude,
    min_eq_right hstands.le_infiniteBits]

end Stands

end Binary64

/-! ## Decimals -/

theorem Binary64.ofRatio_eq_ofMagnitude (negative : Bool) (num den : Nat) :
    ofRatio negative num den = ofMagnitude negative (ofRatio false num den).magnitude := by
  unfold ofRatio
  by_cases hnum : num = 0
  · rw [if_pos hnum, if_pos hnum, zero, zero, magnitude_ofMagnitude false (Nat.zero_le _)]
  · rw [if_neg hnum, if_neg hnum]
    simp only [ofScaled, magnitude_ofMagnitude false (min_le_left _ _)]

namespace Decimal

open Binary64

/-- The sign of the result is the sign given. -/
theorem round_eq_ofMagnitude (negative : Bool) (d : Decimal) :
    d.round negative = ofMagnitude negative (d.round false).magnitude := by
  unfold round
  split_ifs
  · rw [zero, zero, magnitude_ofMagnitude false (Nat.zero_le _)]
  · rw [infinity, infinity, magnitude_ofMagnitude false le_rfl]
  · rw [zero, zero, magnitude_ofMagnitude false (Nat.zero_le _)]
  · exact ofRatio_eq_ofMagnitude negative _ _

theorem round_of_round_false
    {d : Decimal} {x : Binary64} (hround : d.round false = ofMagnitude false x.magnitude)
    (hfinite : x.magnitude ≤ infiniteBits) :
    d.round x.negative = x := by
  rw [round_eq_ofMagnitude, hround, magnitude_ofMagnitude false hfinite, ofMagnitude_magnitude]

theorem numeral_length_le_iff {n k : Nat} (hk : 0 < k) :
    (numeral n).length ≤ k ↔ n < 10 ^ k :=
  Nat.length_toDigits_le_iff (by decide) hk

theorem numeral_mul_ten {n : Nat} (hn : n ≠ 0) : numeral (n * 10) = numeral n ++ ['0'] := by
  have hlarge : ¬ n * 10 < 10 := by omega
  rw [numeral, Nat.toDigits_eq_if (by decide), if_neg hlarge,
    Nat.mul_div_cancel n (by decide), Nat.mul_mod_left]
  rfl

theorem point_mul_ten {n : Nat} (hn : n ≠ 0) (e : Int) :
    point ⟨n * 10, e⟩ = point ⟨n, e + 1⟩ := by
  simp only [point, numeral_mul_ten hn, List.length_append, List.length_singleton]
  push_cast
  omega

theorem ratio_den_pos (d : Decimal) : 0 < d.ratio.2 := Nat.pow_pos (by decide)

theorem round_mul_ten (negative : Bool) (n : Nat) (e : Int) :
    round negative ⟨n * 10, e⟩ = round negative ⟨n, e + 1⟩ := by
  unfold round
  by_cases hn : n = 0
  · simp [hn]
  · have hratio : ofRatio negative (ratio ⟨n * 10, e⟩).1 (ratio ⟨n * 10, e⟩).2 =
        ofRatio negative (ratio ⟨n, e + 1⟩).1 (ratio ⟨n, e + 1⟩).2 := by
      apply ofRatio_congr negative (ratio_den_pos _) (ratio_den_pos _)
      have hexponents :
          1 + e.toNat + (-(e + 1)).toNat = (e + 1).toNat + (-e).toNat := by omega
      simp only [ratio, Nat.pow_eq]
      calc
        n * 10 * 10 ^ e.toNat * 10 ^ (-(e + 1)).toNat =
            n * 10 ^ (1 + e.toNat + (-(e + 1)).toNat) := by ring
        _ = n * 10 ^ (e + 1).toNat * 10 ^ (-e).toNat := by
            rw [hexponents]
            ring
    simp only [point_mul_ten hn, hratio, hn, Nat.mul_eq_zero, OfNat.ofNat_ne_zero, or_self]

theorem round_trim (negative : Bool) (d : Decimal) : d.trim.round negative = d.round negative := by
  have hfuel : ∀ fuel (d : Decimal), (trimFuel fuel d).round negative = d.round negative := by
    intro fuel
    induction fuel with
    | zero => exact fun _ => rfl
    | succ fuel ih =>
        intro d
        unfold trimFuel
        split
        next hzero =>
          rw [ih, ← round_mul_ten, Nat.div_mul_cancel (Nat.dvd_of_mod_eq_zero hzero.2)]
        next => rfl
  exact hfuel _ d

/-! ## The decimal of a finite number -/

variable {magnitude m : Nat} {q : Int}

theorem two_pow_lt_ten_pow : 2 ^ 53 * 2 ^ 971 < 10 ^ 310 := by
  have hstep : (2 ^ 93) ^ 11 < (10 ^ 28) ^ 11 :=
    pow_lt_pow_left₀ (by norm_num) (Nat.zero_le _) (by decide)
  calc
    2 ^ 53 * 2 ^ 971 = (2 ^ 93) ^ 11 * 2 := by rw [← pow_add, ← pow_mul, ← pow_succ]
    _ < (10 ^ 28) ^ 11 * 10 ^ 2 := mul_lt_mul hstep (by decide) (by decide) (Nat.zero_le _)
    _ = 10 ^ 310 := by rw [← pow_mul, ← pow_add]

theorem two_pow_le_five_pow : 2 ^ 744 ≤ 5 ^ 330 :=
  calc
    2 ^ 744 ≤ 2 ^ (16 * 47) := pow_le_pow_right₀ (by decide) (by decide)
    _ = (2 ^ 16) ^ 47 := pow_mul 2 16 47
    _ ≤ (5 ^ 7) ^ 47 := pow_le_pow_left₀ (Nat.zero_le _) (by norm_num) 47
    _ = 5 ^ (7 * 47) := (pow_mul 5 7 47).symm
    _ ≤ 5 ^ 330 := pow_le_pow_right₀ (by decide) (by decide)

theorem point_ofBinary_le (hstands : Stands magnitude m q) : (ofBinary m q).point ≤ 310 := by
  have hdigits : m < 2 ^ 53 := hstands.digits
  have hgreatest := hstands.greatest
  unfold ofBinary
  split
  next hwhole =>
    have hlength : (numeral (m <<< q.toNat)).length ≤ 310 := by
      rw [numeral_length_le_iff (by decide), Nat.shiftLeft_eq]
      have hpower : 2 ^ q.toNat ≤ 2 ^ 971 := pow_le_pow_right₀ (by decide) (by omega)
      calc
        m * 2 ^ q.toNat ≤ 2 ^ 53 * 2 ^ 971 := Nat.mul_le_mul hdigits.le hpower
        _ < 10 ^ 310 := two_pow_lt_ten_pow
    unfold point
    dsimp only
    omega
  next hpart =>
    have hlength : (numeral (m * Nat.pow 5 (-q).toNat)).length ≤ 310 + (-q).toNat := by
      rw [numeral_length_le_iff (by omega), Nat.pow_eq, pow_add]
      have hpower : 5 ^ (-q).toNat ≤ 10 ^ (-q).toNat := Nat.pow_le_pow_left (by decide) _
      have hbound : m < 10 ^ 310 := by
        calc
          m < 10 ^ 16 := hdigits.trans (by norm_num)
          _ ≤ 10 ^ 310 := pow_le_pow_right₀ (by decide) (by decide)
      calc
        m * 5 ^ (-q).toNat ≤ m * 10 ^ (-q).toNat := Nat.mul_le_mul_left m hpower
        _ < 10 ^ 310 * 10 ^ (-q).toNat := Nat.mul_lt_mul_of_pos_right hbound (by positivity)
    unfold point
    dsimp only
    omega

theorem le_point_ofBinary (hstands : Stands magnitude m q) (hm : 0 < m) :
    -330 ≤ (ofBinary m q).point := by
  have hleast := hstands.least
  unfold ofBinary
  split
  next hwhole =>
    unfold point
    dsimp only
    omega
  next hpart =>
    by_contra hbelow
    unfold point at hbelow
    dsimp only at hbelow
    obtain ⟨k, hk, hpositive⟩ : ∃ k, (-q).toNat = k + 330 ∧ 0 < k :=
      ⟨(-q).toNat - 330, by omega⟩
    have hlength : (numeral (m * Nat.pow 5 (-q).toNat)).length ≤ k := by omega
    rw [numeral_length_le_iff hpositive, Nat.pow_eq, hk] at hlength
    -- The powers of five are too large for so few digits.
    have hpower : 2 ^ k ≤ 2 ^ 744 := pow_le_pow_right₀ (by decide) (by omega)
    have hfew : 5 ^ k * 5 ^ 330 < 5 ^ k * 2 ^ 744 := by
      calc
        5 ^ k * 5 ^ 330 = 5 ^ (k + 330) := (pow_add 5 k 330).symm
        _ ≤ m * 5 ^ (k + 330) := Nat.le_mul_of_pos_left _ hm
        _ < 10 ^ k := hlength
        _ = 5 ^ k * 2 ^ k := mul_pow 5 2 k
        _ ≤ 5 ^ k * 2 ^ 744 := Nat.mul_le_mul_left _ hpower
    exact absurd (Nat.lt_of_mul_lt_mul_left hfew) two_pow_le_five_pow.not_gt

/-- The exact value of a finite number is rounded to the number. -/
theorem round_ofBinary (hstands : Stands magnitude m q) (hm : 0 < m) :
    (ofBinary m q).round false = ofMagnitude false magnitude := by
  have hdigits : (ofBinary m q).digits ≠ 0 := by
    unfold ofBinary
    split
    · simp [Nat.shiftLeft_eq, hm.ne']
    · simp [hm.ne']
  have hpoint := point_ofBinary_le hstands
  have hpoint' := le_point_ofBinary hstands hm
  unfold round
  rw [if_neg hdigits, if_neg hpoint.not_gt, if_neg hpoint'.not_gt]
  apply hstands.ofRatio_eq hm (ratio_den_pos _)
  unfold ofBinary
  split
  next hwhole =>
    have hnone : (-q).toNat = 0 := by omega
    simp [ratio, hnone]
  next hpart =>
    have hnone : q.toNat = 0 := by omega
    simp only [ratio, hnone, Nat.pow_eq, Nat.shiftLeft_eq, pow_zero, mul_one, one_mul]
    rw [mul_assoc, ← Nat.mul_pow]

/-- The decimal that is chosen for a positive finite number reads back as it. -/
theorem round_shortest
    (hstands : Stands magnitude m q) (hm : 0 < m) (tie : Tie) :
    (shortest tie (ofMagnitude false magnitude) m q).round false = ofMagnitude false magnitude := by
  unfold shortest
  dsimp only
  rw [round_trim]
  cases hfound : (List.range' 1 17).findSome? fun count : Nat =>
      onGrid? tie (ofMagnitude false magnitude) (ofBinary m q).ratio.1 (ofBinary m q).ratio.2
        (pointOfRatio (ofBinary m q).ratio.1 (ofBinary m q).ratio.2 - count) with
  | none => exact round_ofBinary hstands hm
  | some d =>
      obtain ⟨count, -, hgrid⟩ := List.exists_of_findSome?_eq_some hfound
      have hreads := List.find?_some hgrid
      exact of_decide_eq_true hreads

theorem digits_shortest_ne_zero
    (hstands : Stands magnitude m q) (hm : 0 < m) (tie : Tie) :
    (shortest tie (ofMagnitude false magnitude) m q).digits ≠ 0 := by
  intro hzero
  have hround := congrArg Binary64.magnitude (round_shortest hstands hm tie)
  rw [round, if_pos hzero, zero, magnitude_ofMagnitude false (Nat.zero_le _),
    magnitude_ofMagnitude false hstands.le_infiniteBits] at hround
  exact hm.ne' (hstands.eq_zero_iff.mp hround.symm)

end Decimal

end WorkPlan

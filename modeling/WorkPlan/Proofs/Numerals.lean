import Mathlib.Tactic
import WorkPlan.Json.Printer
import WorkPlan.Json.Reader
import WorkPlan.Proofs.Rounding

/-!
# Numbers in JSON texts

A number that is written is read back, whatever follows it, as long as what follows cannot
belong to a number.  An integer is its digits.  How floats are written and read is left open;
what is used of it is that the text of a finite float is a number, and that float.

The layout with the shortest digits and the reader that takes the nearest float are of that kind.
A float is laid out in one of five ways; each of them has a point or an exponent, so it is read as
a float, and as the decimal that was laid out, perhaps with zeros at its end.
-/

namespace WorkPlan

/-! ## Numerals -/

namespace Decimal

theorem value_eq_ofDigitChars (digits : List Char) :
    value digits = Nat.ofDigitChars 10 digits 0 := rfl

@[simp] theorem value_numeral (n : Nat) : value (numeral n) = n :=
  Nat.ofDigitChars_toDigits (by decide) (by decide)

theorem value_append (digits more : List Char) :
    value (digits ++ more) = value digits * 10 ^ more.length + value more := by
  rw [value_eq_ofDigitChars, Nat.ofDigitChars_append, Nat.ofDigitChars_eq_ofDigitChars_zero,
    mul_comm]
  rfl

@[simp] theorem value_zeros (k : Nat) : value (FloatLayout.zeros k) = 0 := by
  rw [value_eq_ofDigitChars, FloatLayout.zeros, Nat.ofDigitChars_replicate_zero, mul_zero]

theorem isDigit_of_mem_numeral {n : Nat} {c : Char} (hc : c ∈ numeral n) : isDigit c = true :=
  Nat.isDigit_of_mem_toDigits (by decide) (by decide) hc

theorem isDigit_of_mem_zeros {k : Nat} {c : Char} (hc : c ∈ FloatLayout.zeros k) :
    isDigit c = true := by
  rw [List.eq_of_mem_replicate hc]
  rfl

theorem isDigit_zero : ∀ c ∈ ['0'], isDigit c = true := List.forall_mem_singleton.mpr rfl

theorem unsigned_append {text : List Char} (hsome : text ≠ []) (rest : List Char) :
    unsigned (text ++ rest) = ((unsigned text).1, (unsigned text).2 ++ rest) := by
  cases text with
  | nil => exact absurd rfl hsome
  | cons c text =>
      by_cases hminus : c = '-'
      · subst hminus
        rfl
      · by_cases hplus : c = '+'
        · subst hplus
          rfl
        · simp [unsigned, hminus, hplus]

/-- The numeral of a positive number does not begin with a zero. -/
theorem exists_numeral_eq_cons {n : Nat} (hn : n ≠ 0) :
    ∃ c rest, numeral n = c :: rest ∧ c ≠ '0' := by
  induction n using Nat.strong_induction_on with
  | _ n ih =>
      rw [numeral, Nat.toDigits_eq_if (by decide)]
      split
      next hsmall =>
        refine ⟨_, [], rfl, ?_⟩
        interval_cases n <;> simp_all
      next hlarge =>
        obtain ⟨c, rest, hrest, hc⟩ := ih (n / 10) (by omega) (by omega)
        rw [numeral] at hrest
        exact ⟨c, _, by rw [hrest]; rfl, hc⟩

theorem numeral_ne_nil (n : Nat) : numeral n ≠ [] := by
  rcases eq_or_ne n 0 with rfl | hn
  · exact List.cons_ne_nil _ _
  · obtain ⟨c, rest, hnumeral, -⟩ := exists_numeral_eq_cons hn
    rw [hnumeral]
    exact List.cons_ne_nil c rest

theorem round_mul_ten_pow (negative : Bool) (n j : Nat) (e : Int) :
    round negative ⟨n * 10 ^ j, e⟩ = round negative ⟨n, e + j⟩ := by
  induction j generalizing e with
  | zero => simp
  | succ j ih =>
      rw [pow_succ, ← mul_assoc, round_mul_ten, ih]
      congr 2
      push_cast
      omega

end Decimal

namespace Json.Reader

open Decimal

/-! ## Parts of numbers -/

/-- What follows a number cannot belong to it. -/
def Ends (rest : List Char) : Prop :=
  ∀ c ∈ rest.head?, isDigit c = false ∧ c ≠ '.' ∧ c ≠ 'e' ∧ c ≠ 'E'

theorem spanDigits_append
    {digits rest : List Char} (hdigits : ∀ c ∈ digits, isDigit c = true)
    (hrest : ∀ c ∈ rest.head?, isDigit c = false) :
    spanDigits (digits ++ rest) = (digits, rest) := by
  have hstop : rest.takeWhile isDigit = [] ∧ rest.dropWhile isDigit = rest := by
    cases rest with
    | nil => exact ⟨rfl, rfl⟩
    | cons c rest =>
        have hc : isDigit c = false := hrest c rfl
        simp [hc]
  rw [spanDigits, List.takeWhile_append_of_pos hdigits, List.dropWhile_append_of_pos hdigits,
    hstop.1, hstop.2, List.append_nil]

theorem spanDigits_eq_self {digits : List Char} (hdigits : ∀ c ∈ digits, isDigit c = true) :
    spanDigits digits = (digits, []) := by
  simpa using spanDigits_append hdigits fun c (hc : c ∈ ([] : List Char).head?) => nomatch hc

theorem readFraction_none {rest : List Char} (hrest : ∀ c ∈ rest.head?, c ≠ '.') :
    readFraction rest = some (none, rest) := by
  unfold readFraction
  split
  next => exact absurd rfl (hrest '.' rfl)
  next => rfl

theorem readFraction_some
    {digits rest : List Char} (hsome : digits ≠ []) (hdigits : ∀ c ∈ digits, isDigit c = true)
    (hrest : ∀ c ∈ rest.head?, isDigit c = false) :
    readFraction ('.' :: (digits ++ rest)) = some (some digits, rest) := by
  rw [readFraction, spanDigits_append hdigits hrest]
  simp [hsome]

theorem readExponent_none {rest : List Char} (hrest : Ends rest) :
    readExponent rest = some (none, rest) := by
  cases rest with
  | nil => rfl
  | cons c rest =>
      obtain ⟨-, -, he, hE⟩ := hrest c rfl
      unfold readExponent
      simp [he, hE]

/-- An exponent as it is written behind a float. -/
def exponentText (e : Int) : List Char :=
  'e' :: (if e < 0 then ['-'] else ['+']) ++ numeral e.natAbs

theorem readExponent_some (e : Int) : readExponent (exponentText e) = some (some e, []) := by
  have hspan : spanDigits (numeral e.natAbs) = (numeral e.natAbs, []) :=
    spanDigits_eq_self fun _ => isDigit_of_mem_numeral
  by_cases hnegative : e < 0
  · simp [exponentText, readExponent, unsigned, hnegative, hspan, numeral_ne_nil,
      abs_of_neg hnegative]
  · simp [exponentText, readExponent, unsigned, hnegative, hspan, numeral_ne_nil,
      abs_of_nonneg (not_lt.mp hnegative)]

theorem isWhole_cons {c : Char} (hc : c ≠ '0') (rest : List Char) :
    isWhole (c :: rest) = true := by
  unfold isWhole
  split
  next heq => cases heq
  next heq =>
    cases heq
    exact absurd rfl hc
  next => rfl

theorem readNumeral_cons {c : Char} (hc : c ≠ '-') (text : List Char) :
    readNumeral (c :: text) = readUnsigned false (c :: text) := by
  simp [readNumeral, hc]

/-- A numeral is read part by part; the sign stands before all of them. -/
theorem readNumeral_of_parts
    {whole afterWhole afterFraction : List Char} {fraction : Option (List Char)}
    {exponent : Option Int} (negative : Bool)
    (hdigits : ∀ c ∈ whole, isDigit c = true) (hwhole : isWhole whole = true)
    (hstop : ∀ c ∈ afterWhole.head?, isDigit c = false)
    (hfraction : readFraction afterWhole = some (fraction, afterFraction))
    (hexponent : readExponent afterFraction = some (exponent, [])) :
    readNumeral ((if negative then ['-'] else []) ++ (whole ++ afterWhole)) =
      some (⟨negative, whole, fraction, exponent⟩, []) := by
  have hunsigned : readUnsigned negative (whole ++ afterWhole) =
      some (⟨negative, whole, fraction, exponent⟩, []) := by
    simp [readUnsigned, spanDigits_append hdigits hstop, hwhole, hfraction, hexponent]
  cases negative with
  | true => exact hunsigned
  | false =>
      cases whole with
      | nil => cases hwhole
      | cons c whole =>
          have hc : c ≠ '-' := by
            rintro rfl
            exact absurd (hdigits '-' List.mem_cons_self) (by decide)
          exact (readNumeral_cons hc _).trans hunsigned

/-! ## What follows a numeral -/

theorem ends_nil : Ends [] := by simp [Ends]

section

variable {text rest : List Char} (hrest : Ends rest)

include hrest

theorem spanDigits_of_ends (text : List Char) :
    spanDigits (text ++ rest) = ((spanDigits text).1, (spanDigits text).2 ++ rest) := by
  induction text with
  | nil => exact spanDigits_append (List.forall_mem_nil _) fun c hc => (hrest c hc).1
  | cons c text ih =>
      by_cases hc : isDigit c = true
      · simp_all [spanDigits]
      · simp [spanDigits, hc]

theorem readFraction_of_ends
    {fraction : Option (List Char)} {after : List Char}
    (hread : readFraction text = some (fraction, after)) :
    readFraction (text ++ rest) = some (fraction, after ++ rest) := by
  unfold readFraction at hread
  split at hread
  next text =>
    dsimp only at hread
    split at hread
    next => cases hread
    next hsome =>
      cases hread
      rw [List.cons_append, readFraction, spanDigits_of_ends hrest]
      exact if_neg hsome
  next hpoint =>
    cases hread
    apply readFraction_none
    cases text with
    | nil => exact fun c hc => (hrest c hc).2.1
    | cons c text =>
        rintro _ ⟨⟩ rfl
        exact hpoint text rfl

theorem readExponent_of_ends
    {exponent : Option Int} {after : List Char}
    (hread : readExponent text = some (exponent, after)) :
    readExponent (text ++ rest) = some (exponent, after ++ rest) := by
  cases text with
  | nil =>
      cases hread
      exact readExponent_none hrest
  | cons e text =>
      rw [readExponent] at hread
      rw [List.cons_append, readExponent]
      by_cases hmark : e = 'e' ∨ e = 'E'
      · rw [if_pos hmark] at hread ⊢
        dsimp only at hread ⊢
        cases text with
        | nil => cases hread
        | cons c text =>
            rw [unsigned_append (List.cons_ne_nil c text) rest]
            rw [spanDigits_of_ends hrest]
            split at hread
            next => cases hread
            next hsome =>
              cases hread
              exact if_neg hsome
      · rw [if_neg hmark] at hread ⊢
        cases hread
        rfl

theorem readUnsigned_of_ends
    {negative : Bool} {n : Numeral} {after : List Char}
    (hread : readUnsigned negative text = some (n, after)) :
    readUnsigned negative (text ++ rest) = some (n, after ++ rest) := by
  simp only [readUnsigned, Option.bind_eq_bind, Option.bind_eq_some_iff, Option.guard_eq_some',
    Prod.exists] at hread
  obtain ⟨-, hwhole, fraction, afterWhole, hfraction, exponent, afterFraction, hexponent, heq⟩ :=
    hread
  cases heq
  simp [readUnsigned, spanDigits_of_ends hrest, hwhole, readFraction_of_ends hrest hfraction,
    readExponent_of_ends hrest hexponent]

/-- A numeral ends where it ended when nothing stood behind it. -/
theorem readNumeral_of_ends
    {n : Numeral} {after : List Char} (hread : readNumeral text = some (n, after)) :
    readNumeral (text ++ rest) = some (n, after ++ rest) := by
  cases text with
  | nil => cases hread
  | cons c text =>
      by_cases hc : c = '-'
      · subst hc
        exact readUnsigned_of_ends hrest hread
      · rw [readNumeral_cons hc] at hread
        rw [List.cons_append, readNumeral_cons hc]
        exact readUnsigned_of_ends hrest hread

theorem readNumber_of_ends
    {float : FloatReader} {t : Tree} (hread : readNumber float text = some (t, [])) :
    readNumber float (text ++ rest) = some (t, rest) := by
  obtain ⟨⟨n, after⟩, hnumeral, heq⟩ := Option.map_eq_some_iff.mp hread
  cases heq
  rw [readNumber, readNumeral_of_ends hrest hnumeral]
  rfl

end

/-! ## Integers -/

theorem isWhole_numeral (n : Nat) : isWhole (numeral n) = true := by
  rcases eq_or_ne n 0 with rfl | hn
  · rfl
  · obtain ⟨c, rest, hnumeral, hc⟩ := exists_numeral_eq_cons hn
    rw [hnumeral]
    exact isWhole_cons hc rest

theorem readNumber_integerNumeral
    (float : FloatReader) {i : Int} (hleast : -2 ^ 63 ≤ i) (hgreatest : i < 2 ^ 64) :
    readNumber float (integerNumeral i) = some (.int i, []) := by
  have htext : integerNumeral i =
      (if decide (i < 0) then ['-'] else []) ++ (numeral i.natAbs ++ []) := by
    unfold integerNumeral
    split <;> simp_all
  have hinteger :
      Numeral.integer? ⟨decide (i < 0), numeral i.natAbs, none, none⟩ = some i := by
    have hsize : UInt64.size = 18446744073709551616 := rfl
    unfold Numeral.integer?
    simp only [value_numeral, hsize]
    by_cases hnegative : i < 0
    · have hrange : i.natAbs ≠ 0 ∧ i.natAbs ≤ 18446744073709551616 / 2 := by omega
      rw [if_pos (decide_eq_true hnegative), if_pos hrange]
      congr 1
      omega
    · have hrange : i.natAbs < 18446744073709551616 := by omega
      rw [if_neg (by simpa using hnegative), if_pos hrange]
      congr 1
      omega
  rw [readNumber, htext, readNumeral_of_parts _ (fun _ => isDigit_of_mem_numeral)
    (isWhole_numeral _) (by simp) rfl rfl]
  simp [numberTree, hinteger]

/-! ## Floats -/

/-- The text of each finite float is a number, which is read as that float. -/
def ReadsBack (write : Binary64 → List Char) (float : FloatReader) : Prop :=
  ∀ x : Binary64, x.isFinite = true → readNumber float (write x) = some (.float x, [])

/-- With or without a sign before it, the text is a numeral of the same value as the decimal, and
not that of an integer. -/
def ReadsAs (text : List Char) (d : Decimal) : Prop :=
  ∀ negative : Bool, ∃ n : Numeral,
    readNumeral ((if negative then ['-'] else []) ++ text) = some (n, []) ∧
      n.integer? = none ∧ n.decimal.round n.negative = d.round negative

theorem ReadsAs.congr
    {text : List Char} {d d' : Decimal} (hreads : ReadsAs text d)
    (hround : ∀ negative, d.round negative = d'.round negative) : ReadsAs text d' := by
  intro negative
  obtain ⟨n, hread, hinteger, hvalue⟩ := hreads negative
  exact ⟨n, hread, hinteger, hvalue.trans (hround negative)⟩

theorem isDigit_point (text : List Char) : ∀ c ∈ ('.' :: text).head?, isDigit c = false := by
  intro c hc
  cases hc
  rfl

theorem readsAs_point
    {whole fraction : List Char} (hdigits : ∀ c ∈ whole, isDigit c = true)
    (hwhole : isWhole whole = true) (hsome : fraction ≠ [])
    (hfraction : ∀ c ∈ fraction, isDigit c = true) :
    ReadsAs (whole ++ '.' :: fraction) ⟨value (whole ++ fraction), -fraction.length⟩ := by
  intro negative
  have hread : readFraction ('.' :: fraction) = some (some fraction, []) := by
    simp [readFraction, spanDigits_eq_self hfraction, hsome]
  refine ⟨_, readNumeral_of_parts negative hdigits hwhole (isDigit_point fraction) hread rfl,
    rfl, ?_⟩
  simp [Numeral.decimal]

theorem isDigit_exponentText (e : Int) : ∀ c ∈ (exponentText e).head?, isDigit c = false := by
  intro c hc
  cases hc
  rfl

theorem readsAs_exponent
    {whole : List Char} (hdigits : ∀ c ∈ whole, isDigit c = true)
    (hwhole : isWhole whole = true) (e : Int) :
    ReadsAs (whole ++ exponentText e) ⟨value whole, e⟩ := by
  intro negative
  have hnone : readFraction (exponentText e) = some (none, exponentText e) :=
    readFraction_none (by simp [exponentText])
  refine ⟨_, readNumeral_of_parts negative hdigits hwhole (isDigit_exponentText e) hnone
    (readExponent_some e), rfl, ?_⟩
  simp [Numeral.decimal]

theorem readsAs_point_exponent
    {whole fraction : List Char} (hdigits : ∀ c ∈ whole, isDigit c = true)
    (hwhole : isWhole whole = true) (hsome : fraction ≠ [])
    (hfraction : ∀ c ∈ fraction, isDigit c = true) (e : Int) :
    ReadsAs (whole ++ '.' :: (fraction ++ exponentText e))
      ⟨value (whole ++ fraction), e - fraction.length⟩ := by
  intro negative
  refine ⟨_, readNumeral_of_parts negative hdigits hwhole (isDigit_point _)
    (readFraction_some hsome hfraction (isDigit_exponentText e)) (readExponent_some e), rfl, ?_⟩
  simp [Numeral.decimal]

/-- One digit or one digit before the point, and an exponent. -/
theorem readsAs_scientific {n : Nat} (hn : n ≠ 0) {e : Int} :
    ReadsAs ((match numeral n with
        | [] => []
        | [c] => [c]
        | c :: fraction => c :: '.' :: fraction) ++ exponentText (point ⟨n, e⟩ - 1)) ⟨n, e⟩ := by
  obtain ⟨c, more, hnumeral, hc⟩ := exists_numeral_eq_cons hn
  have hdigits : ∀ c' ∈ c :: more, isDigit c' = true :=
    fun c' hc' => isDigit_of_mem_numeral (hnumeral ▸ hc')
  rw [List.forall_mem_cons] at hdigits
  have hone : ∀ c' ∈ [c], isDigit c' = true := by simpa using hdigits.1
  have hwhole : isWhole [c] = true := isWhole_cons hc []
  have hvalue : value (c :: more) = n := by rw [← hnumeral, value_numeral]
  have hpoint : point ⟨n, e⟩ - 1 = e + more.length := by
    rw [point, hnumeral, List.length_cons]
    push_cast
    omega
  rw [hnumeral, hpoint]
  cases more with
  | nil =>
      have hreads := readsAs_exponent hone hwhole (e + ([] : List Char).length)
      rw [hvalue] at hreads
      simpa using hreads
  | cons c' more =>
      have hreads := readsAs_point_exponent hone hwhole (List.cons_ne_nil c' more) hdigits.2
        (e + (c' :: more).length)
      have hvalue : value ([c] ++ c' :: more) = n := hvalue
      rw [hvalue, add_sub_cancel_right] at hreads
      simpa using hreads

/-- Zeros up to the point, and one behind it. -/
theorem readsAs_whole {n : Nat} (hn : n ≠ 0) (j : Nat) :
    ReadsAs (numeral n ++ FloatLayout.zeros j ++ ['.', '0']) ⟨n, j⟩ := by
  obtain ⟨c, more, hnumeral, hc⟩ := exists_numeral_eq_cons hn
  have hwhole : isWhole (numeral n ++ FloatLayout.zeros j) = true := by
    rw [hnumeral]
    exact isWhole_cons hc _
  have hdigits : ∀ c ∈ numeral n ++ FloatLayout.zeros j, isDigit c = true :=
    List.forall_mem_append.mpr
      ⟨fun _ => isDigit_of_mem_numeral, fun _ => isDigit_of_mem_zeros⟩
  have hvalue : value (numeral n ++ FloatLayout.zeros j ++ ['0']) = n * 10 ^ (j + 1) := by
    rw [value_append, value_append, value_numeral, value_zeros, FloatLayout.zeros,
      List.length_replicate]
    simp [value, digitValue, pow_succ, mul_assoc]
  refine (readsAs_point hdigits hwhole (List.cons_ne_nil '0' []) isDigit_zero).congr ?_
  intro negative
  have hexponent : -((['0'].length : Nat) : Int) + ((j + 1 : Nat) : Int) = j := by
    simp
  rw [hvalue, round_mul_ten_pow, hexponent]

/-- The point among the digits. -/
theorem readsAs_among {n k : Nat} (hn : n ≠ 0) (hfirst : 0 < k)
    (hlast : k < (numeral n).length) :
    ReadsAs ((numeral n).take k ++ '.' :: (numeral n).drop k)
      ⟨n, k - (numeral n).length⟩ := by
  obtain ⟨c, more, hnumeral, hc⟩ := exists_numeral_eq_cons hn
  obtain ⟨k, rfl⟩ : ∃ k', k = k' + 1 := ⟨k - 1, by omega⟩
  have hsome : (numeral n).drop (k + 1) ≠ [] := by
    rw [ne_eq, List.drop_eq_nil_iff]
    omega
  have hwhole : isWhole ((numeral n).take (k + 1)) = true := by
    rw [hnumeral, List.take_succ_cons]
    exact isWhole_cons hc _
  refine (readsAs_point (fun c hc => isDigit_of_mem_numeral (List.mem_of_mem_take hc)) hwhole
    hsome fun c hc => isDigit_of_mem_numeral (List.mem_of_mem_drop hc)).congr ?_
  intro negative
  rw [List.take_append_drop, value_numeral, List.length_drop]
  congr 2
  omega

/-- The point and zeros before the digits. -/
theorem readsAs_below (n j : Nat) :
    ReadsAs ('0' :: '.' :: FloatLayout.zeros j ++ numeral n)
      ⟨n, -(j + (numeral n).length : Nat)⟩ := by
  have hdigits : ∀ c ∈ FloatLayout.zeros j ++ numeral n, isDigit c = true :=
    List.forall_mem_append.mpr
      ⟨fun _ => isDigit_of_mem_zeros, fun _ => isDigit_of_mem_numeral⟩
  have hsome : FloatLayout.zeros j ++ numeral n ≠ [] :=
    List.append_ne_nil_of_right_ne_nil _ (numeral_ne_nil n)
  have hvalue : value (['0'] ++ (FloatLayout.zeros j ++ numeral n)) = n := by
    rw [value_append, value_append, value_numeral, value_zeros]
    simp [value, digitValue]
  have hreads := readsAs_point isDigit_zero rfl hsome hdigits
  rw [hvalue, List.length_append, FloatLayout.zeros, List.length_replicate] at hreads
  exact hreads

/-- A decimal that is laid out is read with its value. -/
theorem readsAs_decimal {d : Decimal} (hd : d.digits ≠ 0) :
    ReadsAs (Printer.floats.decimal d) d := by
  obtain ⟨n, e⟩ := d
  have hpoint : point ⟨n, e⟩ = (numeral n).length + e := rfl
  unfold FloatLayout.decimal
  dsimp only
  split_ifs with hinside hwhole hsmall hnegative <;> dsimp only at *
  · obtain ⟨j, rfl⟩ : ∃ j : Nat, e = j := ⟨e.toNat, by omega⟩
    have hzeros : (point ⟨n, j⟩).toNat - (numeral n).length = j := by omega
    rw [hzeros]
    exact readsAs_whole hd j
  · have hreads := readsAs_among hd (k := (point ⟨n, e⟩).toNat) (by omega) (by omega)
    have he : ((point ⟨n, e⟩).toNat : Int) - (numeral n).length = e := by omega
    rwa [he] at hreads
  · have hreads := readsAs_below n (-point ⟨n, e⟩).toNat
    have he : -(((-point ⟨n, e⟩).toNat + (numeral n).length : Nat) : Int) = e := by
      push_cast
      omega
    rwa [he] at hreads
  · have hreads := readsAs_scientific hd (e := e)
    rw [exponentText, if_pos hnegative, ← List.append_assoc] at hreads
    exact hreads
  · have hreads := readsAs_scientific hd (e := e)
    rw [exponentText, if_neg hnegative, ← List.append_assoc] at hreads
    exact hreads

/-- The shortest digits of a finite float are a numeral that is no integer, and the float is the
nearest one. -/
theorem exists_numeral_write {x : Binary64} (hfinite : x.isFinite = true) :
    ∃ n : Numeral, readNumeral (Printer.floats.write x) = some (n, []) ∧
      n.integer? = none ∧ n.nearest? = some x := by
  obtain ⟨m, q, hread, hstands⟩ := Binary64.exists_stands_of_isFinite hfinite
  have hreads : ∀ {text : List Char} {d : Decimal}, ReadsAs text d → d.round x.negative = x →
      ∃ n : Numeral, readNumeral (if x.negative then '-' :: text else text) = some (n, []) ∧
        n.integer? = none ∧ n.nearest? = some x := by
    intro text d hreads hround
    obtain ⟨n, hnumeral, hinteger, hvalue⟩ := hreads x.negative
    have hnearest : n.nearest? = some x := by
      rw [Numeral.nearest?, hvalue, hround]
      exact if_pos hfinite
    refine ⟨n, ?_, hinteger, hnearest⟩
    cases hsign : x.negative <;> simpa [hsign] using hnumeral
  unfold FloatLayout.write
  dsimp only
  rw [hread]
  cases m with
  | zero =>
      have hmagnitude : x.magnitude = 0 := hstands.eq_zero_iff.mpr rfl
      have hzero : ReadsAs ['0', '.', '0'] ⟨0, -1⟩ :=
        readsAs_point isDigit_zero rfl (List.cons_ne_nil '0' []) isDigit_zero
      have hround : Decimal.round x.negative ⟨0, -1⟩ = x := by
        rw [Decimal.round, if_pos rfl, Binary64.zero, ← hmagnitude, x.ofMagnitude_magnitude]
      exact hreads hzero hround
  | succ m =>
      have hshortest := round_shortest hstands (Nat.succ_pos m) Printer.floats.tie
      have hround := round_of_round_false hshortest hstands.le_infiniteBits
      have hdigits := digits_shortest_ne_zero hstands (Nat.succ_pos m) Printer.floats.tie
      exact hreads (readsAs_decimal hdigits) hround

/-- The shortest digits are read back wherever the float of their numeral is the right one. -/
theorem readsBack_shortest
    {float : FloatReader}
    (hfloat : ∀ (x : Binary64) (n : Numeral), x.isFinite = true →
      readNumeral (Printer.floats.write x) = some (n, []) → float n = some x) :
    ReadsBack Printer.floats.write float := by
  intro x hfinite
  obtain ⟨n, hnumeral, hinteger, -⟩ := exists_numeral_write hfinite
  rw [readNumber, hnumeral]
  simp [numberTree, hinteger, hfloat x n hfinite hnumeral]

/-- The shortest digits are read back, bit by bit, where the nearest float is read. -/
theorem readsBack_nearest : ReadsBack Printer.floats.write Numeral.nearest? := by
  apply readsBack_shortest
  intro x n hfinite hnumeral
  obtain ⟨n', hnumeral', -, hnearest⟩ := exists_numeral_write hfinite
  rw [hnumeral] at hnumeral'
  cases hnumeral'
  exact hnearest

end Json.Reader

end WorkPlan

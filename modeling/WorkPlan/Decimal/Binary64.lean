/-!
# 64-bit binary floating-point numbers

A number is kept as its bit pattern, so equality is decidable and tells the two zeros and the
NaN patterns apart.  A finite pattern stands for `± m · 2 ^ q`.  Rounding takes an exact quotient
of natural numbers to the nearest such value, a tie going to the even `m`.
-/

namespace WorkPlan

structure Binary64 where
  bits : UInt64
deriving DecidableEq, Repr

namespace Binary64

/-- What a bit pattern stands for; `finite negative m q` is the number `± m · 2 ^ q`. -/
inductive Reading
  | nan
  | infinite (negative : Bool)
  | finite (negative : Bool) (m : Nat) (q : Int)
deriving DecidableEq, Repr

/-- The weight of the sign bit, below which all magnitudes are. -/
def signWeight : Nat := 1 <<< 63

/-- The weight of the lowest exponent bit, below which all fractions are. -/
def exponentWeight : Nat := 1 <<< 52

/-- The pattern from which on a magnitude is infinite. -/
def infiniteBits : Nat := 2047 * exponentWeight

def negative (x : Binary64) : Bool := decide (signWeight ≤ x.bits.toNat)

def magnitude (x : Binary64) : Nat := x.bits.toNat % signWeight

def isFinite (x : Binary64) : Bool := decide (x.magnitude < infiniteBits)

/-- Reads a pattern: the exponent field is above the 52 bits of the fraction. -/
def read (x : Binary64) : Reading :=
  let exponent : Nat := x.magnitude / exponentWeight
  let fraction : Nat := x.magnitude % exponentWeight
  if exponent = 2047 then
    if fraction = 0 then .infinite x.negative else .nan
  else if exponent = 0 then .finite x.negative fraction (-1074)
  else .finite x.negative (exponentWeight + fraction) ((exponent : Int) - 1075)

def ofMagnitude (negative : Bool) (magnitude : Nat) : Binary64 :=
  ⟨UInt64.ofNat ((if negative then signWeight else 0) + magnitude)⟩

def zero (negative : Bool) : Binary64 := ofMagnitude negative 0

def infinity (negative : Bool) : Binary64 := ofMagnitude negative infiniteBits

def nan : Binary64 := ofMagnitude false (infiniteBits + exponentWeight / 2)

/--
The pattern of `± m · 2 ^ q` for `m ≤ 2 ^ 53` and `-1074 ≤ q`: a carry out of the fraction moves
into the exponent field, and what passes the largest finite number is infinite.
-/
def ofScaled (negative : Bool) (m : Nat) (q : Int) : Binary64 :=
  ofMagnitude negative (min infiniteBits ((q + 1074).toNat * exponentWeight + m))

/-! ## Rounding -/

/-- The quotient to the nearest natural number, a half going to the even neighbour. -/
def divRound (num den : Nat) : Nat :=
  let below := num / den
  let twice := 2 * (num % den)
  if twice < den then below
  else if den < twice then below + 1
  else below + below % 2

/-- `num / den` as a quotient of natural numbers after division by `2 ^ q`. -/
def unscale (num den : Nat) (q : Int) : Nat × Nat :=
  (num <<< (-q).toNat, den <<< q.toNat)

/--
The exponent at which the quotient has a 53-bit integer part, or the least exponent when it is
smaller than that.
-/
def scaleOf (num den : Nat) : Int :=
  let guess : Int := (num.log2 : Int) - den.log2 - 52
  let (n, d) := unscale num den guess
  max (-1074) (if n / d < exponentWeight then guess - 1 else guess)

/-- The number nearest to `± num / den`. -/
def ofRatio (negative : Bool) (num den : Nat) : Binary64 :=
  if num = 0 then zero negative
  else
    let q := scaleOf num den
    let (n, d) := unscale num den q
    ofScaled negative (divRound n d) q

def ofInt (i : Int) : Binary64 := ofRatio (decide (i < 0)) i.natAbs 1

end Binary64

end WorkPlan

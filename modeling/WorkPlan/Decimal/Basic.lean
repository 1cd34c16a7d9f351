import WorkPlan.Decimal.Binary64

/-!
# Decimal numerals

A decimal is a natural number of digits and a power of ten.  Reading one as a binary number rounds
its exact value once.  Numerals are lists of characters, most significant digit first.
-/

namespace WorkPlan

/-- The number `digits · 10 ^ exponent`. -/
structure Decimal where
  digits : Nat
  exponent : Int
deriving DecidableEq, Repr

namespace Decimal

def numeral (n : Nat) : List Char := Nat.toDigits 10 n

/-- The numeral of an integer, a minus sign before the negative ones. -/
def integerNumeral (i : Int) : List Char :=
  if i < 0 then '-' :: numeral i.natAbs else numeral i.natAbs

def isDigit (c : Char) : Bool := decide ('0' ≤ c) && decide (c ≤ '9')

def digitValue (c : Char) : Nat := c.toNat - '0'.toNat

/-- The number that a run of digits stands for. -/
def value (digits : List Char) : Nat :=
  digits.foldl (fun n c => 10 * n + digitValue c) 0

/-- The quotient of natural numbers that a decimal stands for. -/
def ratio (d : Decimal) : Nat × Nat :=
  (d.digits * Nat.pow 10 d.exponent.toNat, Nat.pow 10 (-d.exponent).toNat)

/-- One more than the decimal exponent of the leading digit. -/
def point (d : Decimal) : Int := (numeral d.digits).length + d.exponent

/--
The nearest binary number.  A decimal with its point far to the right or to the left is infinite or
zero, and is not expanded.
-/
def round (negative : Bool) (d : Decimal) : Binary64 :=
  if d.digits = 0 then .zero negative
  else if 310 < d.point then .infinity negative
  else if d.point < -330 then .zero negative
  else .ofRatio negative d.ratio.1 d.ratio.2

/-- The exact value of `m · 2 ^ q`. -/
def ofBinary (m : Nat) (q : Int) : Decimal :=
  if 0 ≤ q then ⟨m <<< q.toNat, 0⟩ else ⟨m * Nat.pow 5 (-q).toNat, q⟩

/-- Drops zeros from the end, at most as many as `fuel` says. -/
def trimFuel : Nat → Decimal → Decimal
  | 0, d => d
  | fuel + 1, d =>
    if d.digits ≠ 0 ∧ d.digits % 10 = 0 then trimFuel fuel ⟨d.digits / 10, d.exponent + 1⟩ else d

/-- The same number without zeros at the end of its digits. -/
def trim (d : Decimal) : Decimal := trimFuel (numeral d.digits).length d

/-- The decimal exponent just above a positive quotient: `10 ^ (k - 1) ≤ num / den < 10 ^ k`. -/
def pointOfRatio (num den : Nat) : Int :=
  let guess : Int := (numeral num).length - (numeral den).length
  if den * Nat.pow 10 guess.toNat ≤ num * Nat.pow 10 (-guess).toNat then guess + 1 else guess

/-- Which of two equally near neighbours is taken. -/
inductive Tie
  | even
  | greater
deriving DecidableEq, Repr

/-- Whether a quotient is nearer to the next natural number than to the one below. -/
def roundsUp (tie : Tie) (num den : Nat) : Bool :=
  let twice := 2 * (num % den)
  if twice = den then
    match tie with
    | .even => decide (num / den % 2 = 1)
    | .greater => true
  else decide (den < twice)

/-- The multiples of `10 ^ exponent` on both sides of a quotient, the nearer one first. -/
def neighbours (tie : Tie) (num den : Nat) (exponent : Int) : List Decimal :=
  let n := num * Nat.pow 10 (-exponent).toNat
  let d := den * Nat.pow 10 exponent.toNat
  let below : Decimal := ⟨n / d, exponent⟩
  let above : Decimal := ⟨n / d + 1, exponent⟩
  if roundsUp tie n d then [above, below] else [below, above]

/-- Of the two neighbours on a decimal grid, the nearer one that reads back as `x`. -/
def onGrid? (tie : Tie) (x : Binary64) (num den : Nat) (exponent : Int) : Option Decimal :=
  (neighbours tie num den exponent).find? fun d => decide (d.round false = x)

/-- The decimal with the fewest digits that reads back as the positive number `x = m · 2 ^ q`. -/
def shortest (tie : Tie) (x : Binary64) (m : Nat) (q : Int) : Decimal :=
  let (num, den) := (ofBinary m q).ratio
  let k := pointOfRatio num den
  let found := (List.range' 1 17).findSome? fun count : Nat => onGrid? tie x num den (k - count)
  (found.getD (ofBinary m q)).trim

end Decimal

end WorkPlan

import WorkPlan.Decimal.Basic

/-!
# Reading decimal numerals

A numeral has digits before or behind a point, or on both sides of it, and perhaps an exponent.  A
sign stands apart from it.
-/

namespace WorkPlan.Decimal

/-- The text without one sign, and whether the sign was a minus. -/
def unsigned : List Char → Bool × List Char
  | '-' :: rest => (true, rest)
  | '+' :: rest => (false, rest)
  | s => (false, s)

/-- An integer with or without a sign. -/
def readInteger? (s : List Char) : Option Int :=
  let (negative, digits) := unsigned s
  if digits.isEmpty || !digits.all isDigit then none
  else
    let n : Int := value digits
    some (if negative then -n else n)

/-- The decimal that a text without a sign stands for. -/
def read? (s : List Char) : Option Decimal :=
  let isExponent (c : Char) := c = 'e' || c = 'E'
  let mantissa := s.takeWhile fun c => !isExponent c
  let whole := mantissa.takeWhile (· ≠ '.')
  let fraction := (mantissa.dropWhile (· ≠ '.')).drop 1
  let digits := whole ++ fraction
  let exponent :=
    match s.dropWhile fun c => !isExponent c with
    | [] => some 0
    | _ :: rest => readInteger? rest
  match exponent with
  | none => none
  | some e =>
    if digits.isEmpty || !digits.all isDigit then none
    else some ⟨value digits, e - fraction.length⟩

end WorkPlan.Decimal

import WorkPlan.Decimal.Basic

/-!
# Texts of floating-point numbers

A number is written with the fewest digits that read back.  A layout says where the positional form
ends, how the exponent is written, and what stands for the values that are no numbers.
-/

namespace WorkPlan

/-- How floating-point numbers are written. -/
structure FloatLayout where
  /-- Below or at this position of the point the exponent form is used. -/
  tooSmall : Int := -5
  /-- Above this position of the point the exponent form is used. -/
  large : Int := 16
  /-- Which digits are taken where two shortest ones are equally near. -/
  tie : Decimal.Tie := .even
  /-- What precedes an exponent that is not negative. -/
  exponentSign : String
  nan : String
  infinity : String

namespace FloatLayout

def zeros (n : Nat) : List Char := List.replicate n '0'

/-- Writes a positive decimal; a whole number keeps one zero after its point. -/
def decimal (layout : FloatLayout) (d : Decimal) : List Char :=
  let digits := Decimal.numeral d.digits
  let k := d.point
  if 0 < k ∧ k ≤ layout.large then
    if digits.length ≤ k.toNat then
      digits ++ zeros (k.toNat - digits.length) ++ ['.', '0']
    else digits.take k.toNat ++ '.' :: digits.drop k.toNat
  else if layout.tooSmall < k ∧ k ≤ 0 then
    '0' :: '.' :: zeros (-k).toNat ++ digits
  else
    let mantissa :=
      match digits with
      | [] => []
      | [c] => [c]
      | c :: rest => c :: '.' :: rest
    let sign := if k - 1 < 0 then ['-'] else layout.exponentSign.toList
    mantissa ++ 'e' :: sign ++ Decimal.numeral (k - 1).natAbs

def write (layout : FloatLayout) (x : Binary64) : List Char :=
  let signed (negative : Bool) (text : List Char) := if negative then '-' :: text else text
  match x.read with
  | .nan => layout.nan.toList
  | .infinite negative => signed negative layout.infinity.toList
  | .finite negative 0 _ => signed negative ['0', '.', '0']
  | .finite negative m q =>
    signed negative (layout.decimal (Decimal.shortest layout.tie (.ofMagnitude false x.magnitude) m q))

end FloatLayout

end WorkPlan

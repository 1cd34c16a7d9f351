/-!
# Hexadecimal digits

A character may be given by the hexadecimal digits of its number.
-/

namespace WorkPlan.Text

def hexValue? (c : Char) : Option Nat :=
  if '0' ≤ c ∧ c ≤ '9' then some (c.toNat - 48)
  else if 'a' ≤ c ∧ c ≤ 'f' then some (c.toNat - 87)
  else if 'A' ≤ c ∧ c ≤ 'F' then some (c.toNat - 55)
  else none

/-- The character with the given number, which is no surrogate. -/
def codePoint? (digits : List Char) : Option Char :=
  match digits.foldlM (fun n c => (hexValue? c).map (16 * n + ·)) 0 with
  | some n => if h : n.isValidChar then some (Char.ofNatAux n h) else none
  | none => none

end WorkPlan.Text

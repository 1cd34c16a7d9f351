import WorkPlan.Decimal.Reader
import WorkPlan.Pattern.Reader

/-!
# Conditions on fields

A condition names a field of a span and perhaps says what its value has to be: a truth value, a number,
or a text that matches a pattern.
-/

namespace WorkPlan.Log

/-- What the value of a field is held against. -/
inductive Expected
  | bool (value : Bool)
  | integer (value : Int)
  | float (value : Binary64)
  | pattern (pattern : Pattern)
deriving Repr

structure Condition where
  field : String
  expected : Option Expected := none
deriving Repr

namespace Expected

/-- An integer of 64 bits, with or without a sign bit. -/
def readInteger? (s : List Char) : Option Int :=
  (Decimal.readInteger? s).filter fun n => -(UInt64.size / 2 : Int) ≤ n ∧ n < UInt64.size

/-- A float; names of what is no finite number are read in upper or lower case. -/
def readFloat? (s : List Char) : Option Binary64 :=
  let (negative, rest) := Decimal.unsigned s
  let name := String.ofList (rest.map Char.toLower)
  if name = "nan" then some .nan
  else if name = "inf" ∨ name = "infinity" then some (.infinity negative)
  else (Decimal.read? rest).map (Decimal.round negative)

def readBool? (s : List Char) : Option Bool :=
  if s = "true".toList then some true
  else if s = "false".toList then some false
  else none

/-- Reads a text as the first kind of value that it can be; what is nothing else is a pattern. -/
def read? (s : List Char) : Option Expected :=
  match readBool? s, readInteger? s, readFloat? s with
  | some b, _, _ => some (.bool b)
  | none, some n, _ => some (.integer n)
  | none, none, some x => some (.float x)
  | none, none, none => (Pattern.read? s).map .pattern

end Expected

/-- Reads a condition; a second equals sign ends the value. -/
def Condition.read? (s : List Char) : Option Condition :=
  let field := String.ofList (s.takeWhile (· ≠ '='))
  match s.dropWhile (· ≠ '=') with
  | _ :: rest =>
    (Expected.read? (rest.takeWhile (· ≠ '='))).map fun expected =>
      { field, expected := some expected }
  | [] => some { field }

end WorkPlan.Log

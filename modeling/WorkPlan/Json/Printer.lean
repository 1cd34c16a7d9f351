import WorkPlan.Decimal.Layout
import WorkPlan.Json.Value

/-!
# Writing JSON texts

A tree is written with its entries in the order in which they stand, either on one line or with one
entry a line and two spaces for each level.
-/

namespace WorkPlan.Json.Printer

/-- Floats have the shortest digits; an exponent that is not negative has a plus sign. -/
def floats : FloatLayout where
  exponentSign := "+"
  nan := "null"
  infinity := "null"

def hexDigit (n : Nat) : Char := (Nat.toDigits 16 n).getLastD '0'

def escape (c : Char) : List Char :=
  if c = '"' then ['\\', '"']
  else if c = '\\' then ['\\', '\\']
  else if c = '\x08' then ['\\', 'b']
  else if c = '\x0c' then ['\\', 'f']
  else if c = '\n' then ['\\', 'n']
  else if c = '\r' then ['\\', 'r']
  else if c = '\t' then ['\\', 't']
  else if c.toNat < 0x20 then
    ['\\', 'u', '0', '0', hexDigit (c.toNat / 16), hexDigit (c.toNat % 16)]
  else [c]

def quoted (s : String) : List Char := '"' :: s.toList.flatMap escape ++ ['"']

section

variable (float : Binary64 → List Char)

/-- What has no parts; a float that is not finite is written as null. -/
def scalar : Tree → List Char
  | .bool true => "true".toList
  | .bool false => "false".toList
  | .int i => Decimal.integerNumeral i
  | .float x => if x.isFinite then float x else "null".toList
  | .text s => quoted s
  | _ => "null".toList

/-! ## On one line -/

mutual

def compact : Tree → List Char
  | .list items => '[' :: compactItems items
  | .table entries => '\x7b' :: compactEntries entries
  | t => scalar float t

def compactItems : List Tree → List Char
  | [] => [']']
  | [t] => compact t ++ [']']
  | t :: rest => compact t ++ ',' :: compactItems rest

def compactEntries : List (String × Tree) → List Char
  | [] => ['\x7d']
  | [(name, t)] => quoted name ++ ':' :: compact t ++ ['\x7d']
  | (name, t) :: rest => quoted name ++ ':' :: compact t ++ ',' :: compactEntries rest

end

/-! ## One entry a line -/

def newLine (level : Nat) : List Char := '\n' :: List.replicate (2 * level) ' '

mutual

def pretty (level : Nat) : Tree → List Char
  | .list [] => ['[', ']']
  | .list items => '[' :: prettyItems level items
  | .table [] => ['\x7b', '\x7d']
  | .table entries => '\x7b' :: prettyEntries level entries
  | t => scalar float t

def prettyItems (level : Nat) : List Tree → List Char
  | [] => [']']
  | [t] => newLine (level + 1) ++ pretty (level + 1) t ++ newLine level ++ [']']
  | t :: rest => newLine (level + 1) ++ pretty (level + 1) t ++ ',' :: prettyItems level rest

def prettyEntries (level : Nat) : List (String × Tree) → List Char
  | [] => ['\x7d']
  | [(name, t)] =>
    newLine (level + 1) ++ quoted name ++ ':' :: ' ' :: pretty (level + 1) t ++
      newLine level ++ ['\x7d']
  | (name, t) :: rest =>
    newLine (level + 1) ++ quoted name ++ ':' :: ' ' :: pretty (level + 1) t ++
      ',' :: prettyEntries level rest

end

end

end WorkPlan.Json.Printer

namespace WorkPlan.Json

/-- The text of a tree on one line. -/
def compactText (t : Tree) : String := String.ofList (Printer.compact Printer.floats.write t)

/-- The text of a tree with one entry a line, its floats written in the given way. -/
def prettyTextWith (float : Binary64 → List Char) (t : Tree) : String :=
  String.ofList (Printer.pretty float 0 t)

/-- The text of a tree with one entry a line, its floats with the shortest digits. -/
def prettyText (t : Tree) : String := prettyTextWith Printer.floats.write t

def Value.text (v : Value) : String := compactText v.toTree

end WorkPlan.Json

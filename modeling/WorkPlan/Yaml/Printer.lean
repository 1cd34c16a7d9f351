import WorkPlan.Data.Tree
import WorkPlan.Yaml.Scalar

/-!
# Block documents

A tree is written in block style, two columns a level.  A list inside a table stays at the column of
its key; a list or table inside a list begins on the line of its dash.  A key that has several lines
or is too long stands alone after a question mark.
-/

namespace WorkPlan.Yaml

/-- The longest key, in bytes, that stands on one line with its value. -/
def longestKey : Nat := 128

def isSimpleKey (key : String) : Bool := !key.toList.any isBreak && key.utf8ByteSize ≤ longestKey

/-- Ends a line that does not end with a break of its own. -/
def endLine (text : List Char) : List Char :=
  if text.getLast?.any isBreak then text else text ++ ['\n']

def scalar (indent : Nat) : Tree → List Char
  | .bool true => "true".toList
  | .bool false => "false".toList
  | .int i => Decimal.integerNumeral i
  | .float x => floats.write x
  | .text s => string indent s
  | .list _ => "[]".toList
  | .table _ => "\x7b\x7d".toList
  | _ => "null".toList

/-- The indentation of a line, unless it goes on after a dash or a colon. -/
def margin (continued : Bool) (indent : Nat) : List Char := if continued then [] else spaces indent

mutual

/-- What follows the colon after a simple key at a column. -/
def afterKey (indent : Nat) : Tree → List Char
  | .list (item :: items) => '\n' :: itemLines indent false (item :: items)
  | .table (entry :: entries) => '\n' :: entryLines (indent + 2) false (entry :: entries)
  | t => ' ' :: endLine (scalar (indent + 2) t)

/-- What follows a dash, or the colon of a key that stands alone, at a column. -/
def afterMark (indent : Nat) : Tree → List Char
  | .list (item :: items) => ' ' :: itemLines (indent + 2) true (item :: items)
  | .table (entry :: entries) => ' ' :: entryLines (indent + 2) true (entry :: entries)
  | t => ' ' :: endLine (scalar (indent + 2) t)

/-- The items of a list, their dashes at a column. -/
def itemLines (indent : Nat) (continued : Bool) : List Tree → List Char
  | [] => []
  | t :: rest => margin continued indent ++ '-' :: afterMark indent t ++ itemLines indent false rest

/-- The entries of a table, their keys at a column. -/
def entryLines (indent : Nat) (continued : Bool) : List (String × Tree) → List Char
  | [] => []
  | (key, t) :: rest =>
    let written := string (indent + 2) key
    margin continued indent
      ++ (if isSimpleKey key then written ++ ':' :: afterKey indent t
        else '?' :: ' ' :: endLine written ++ spaces indent ++ ':' :: afterMark indent t)
      ++ entryLines indent false rest

end

def document : Tree → List Char
  | .list (item :: items) => itemLines 0 true (item :: items)
  | .table (entry :: entries) => entryLines 0 true (entry :: entries)
  | t => endLine (scalar 2 t)

/-- The text of a tree as a block document. -/
def text (t : Tree) : String := String.ofList (document t)

end WorkPlan.Yaml

import WorkPlan.Data.Keyed
import WorkPlan.Decimal.Binary64

/-!
# Trees of data

A tree is what a reader makes of a text before the text gets a meaning, and what a printer lays out.
The entries of a table keep the order in which they stand, and a name may stand twice.
-/

namespace WorkPlan

inductive Tree
  | null
  | bool (value : Bool)
  | int (value : Int)
  | float (value : Binary64)
  | text (value : String)
  | list (items : List Tree)
  | table (entries : List (String × Tree))
  /-- A part that is well formed but has no value: it may be passed over and not looked at. -/
  | unreadable
deriving Repr

namespace Tree

mutual

/-- Whether every part of the tree has a value. -/
def readable : Tree → Bool
  | .unreadable => false
  | .list items => readableItems items
  | .table entries => readableEntries entries
  | _ => true

def readableItems : List Tree → Bool
  | [] => true
  | t :: rest => t.readable && readableItems rest

def readableEntries : List (String × Tree) → Bool
  | [] => true
  | (_, t) :: rest => t.readable && readableEntries rest

end

def strings (items : List String) : Tree := .list (items.map .text)

/-- An entry that is left out when there is nothing to write. -/
def optional (name : String) (value : Option Tree) : List (String × Tree) :=
  match value with
  | none => []
  | some t => [(name, t)]

/-- A list entry that is left out when the list is empty. -/
def unlessEmpty (name : String) (items : List Tree) : List (String × Tree) :=
  if items.isEmpty then [] else [(name, .list items)]

end Tree

end WorkPlan

import WorkPlan.Data.Tree

/-!
# JSON values

A number is a natural number below `2 ^ 64`, a negative integer from `-2 ^ 63` on, or a finite
64-bit float; the three kinds are never mixed up.  An object is kept with its keys in increasing
order, which `Value.Normal` states.
-/

namespace WorkPlan.Json

inductive Number
  | natural (n : Fin UInt64.size)
  /-- The integer `-(k + 1)`. -/
  | negative (k : Fin (UInt64.size / 2))
  | float (x : Binary64) (finite : x.isFinite = true)
deriving DecidableEq, Repr

namespace Number

/-- The integer as a number, if it is in the range of the integer kinds. -/
def ofInt? : Int → Option Number
  | .ofNat n => if h : n < UInt64.size then some (.natural ⟨n, h⟩) else none
  | .negSucc k => if h : k < UInt64.size / 2 then some (.negative ⟨k, h⟩) else none

/-- The float as a number, if it is finite. -/
def ofFloat? (x : Binary64) : Option Number :=
  if h : x.isFinite = true then some (.float x h) else none

def toTree : Number → Tree
  | .natural n => .int n
  | .negative k => .int (Int.negSucc k)
  | .float x _ => .float x

end Number

inductive Value
  | null
  | bool (value : Bool)
  | number (value : Number)
  | string (value : String)
  | array (items : List Value)
  | object (members : List (String × Value))
deriving Repr

namespace Value

instance : Inhabited Value := ⟨.null⟩

/-- A count; one past the integer kinds has no value. -/
def nat (n : Nat) : Value := ((Number.ofInt? n).map .number).getD .null

/-- A float; one that is not finite is null. -/
def float (x : Binary64) : Value := ((Number.ofFloat? x).map .number).getD .null

def strings (items : List String) : Value := .array (items.map .string)

/-- The object with the given entries, the last of a name winning. -/
def ofEntries (entries : List (String × Value)) : Value := .object (Members.ofEntries entries)

/-- The member of an object under a name; other values have none. -/
def get? (key : String) : Value → Option Value
  | .object members => Members.get? key members
  | _ => none

def string? : Value → Option String
  | .string s => some s
  | _ => none

mutual

/-- Every object in the value has its keys in strictly increasing order. -/
def Normal : Value → Prop
  | .array items => NormalItems items
  | .object members => Members.Sorted members ∧ NormalMembers members
  | _ => True

def NormalItems : List Value → Prop
  | [] => True
  | v :: rest => v.Normal ∧ NormalItems rest

def NormalMembers : List (String × Value) → Prop
  | [] => True
  | (_, v) :: rest => v.Normal ∧ NormalMembers rest

end

mutual

def toTree : Value → Tree
  | .null => .null
  | .bool b => .bool b
  | .number n => n.toTree
  | .string s => .text s
  | .array items => .list (treesOf items)
  | .object members => .table (entriesOf members)

def treesOf : List Value → List Tree
  | [] => []
  | v :: rest => v.toTree :: treesOf rest

def entriesOf : List (String × Value) → List (String × Tree)
  | [] => []
  | (key, v) :: rest => (key, v.toTree) :: entriesOf rest

end

mutual

/--
The value of a tree: tables become objects, of a repeated name the last entry wins, and a float that
is not finite becomes null.
-/
def ofTree? : Tree → Option Value
  | .null => some .null
  | .bool b => some (.bool b)
  | .int i => (Number.ofInt? i).map .number
  | .float x =>
    match Number.ofFloat? x with
    | some n => some (.number n)
    | none => some .null
  | .text s => some (.string s)
  | .list items => (ofTrees? items).map .array
  | .table entries => (ofEntries? entries).map ofEntries
  | .unreadable => none

def ofTrees? : List Tree → Option (List Value)
  | [] => some []
  | t :: rest =>
    match ofTree? t, ofTrees? rest with
    | some v, some vs => some (v :: vs)
    | _, _ => none

def ofEntries? : List (String × Tree) → Option (List (String × Value))
  | [] => some []
  | (key, t) :: rest =>
    match ofTree? t, ofEntries? rest with
    | some v, some vs => some ((key, v) :: vs)
    | _, _ => none

end

/-- The value of a tree in which every part is readable. -/
def ofTree (t : Tree) : Value := (ofTree? t).getD .null

end Value

end WorkPlan.Json

import WorkPlan.Json.Value

/-!
# Reading records out of trees

A record is written as a table of its fields, or as a list of them in the order of their
declaration.  Unknown fields are passed over.  A known field may stand once.  A record of several
cases names its case under a tag; the rest of it is read before its case is known, so there nothing
may be passed over that cannot be read.
-/

namespace WorkPlan

/-- Where the sources of trees differ in what they accept. -/
structure Dialect where
  /-- A record given as a list may have more items than fields. -/
  surplus : Bool
  /-- A case without contents may be written with null as its contents. -/
  nullContents : Bool
  /-- A case without contents may be written with an empty table as its contents. -/
  emptyTable : Bool
  /-- A case without contents may be written with an empty list as its contents. -/
  emptyList : Bool
  /-- A tag may name its case by number. -/
  numbered : Bool
  /-- Inside a tagged record a tag may name its case by number. -/
  numberedInside : Bool
deriving DecidableEq, Repr

namespace Dialect

def json : Dialect where
  surplus := false
  nullContents := true
  emptyTable := false
  emptyList := false
  numbered := false
  numberedInside := true

def toml : Dialect where
  surplus := true
  nullContents := false
  emptyTable := true
  emptyList := true
  numbered := false
  numberedInside := false

/-- What holds inside a tagged record. -/
def inside (d : Dialect) : Dialect where
  surplus := false
  nullContents := true
  emptyTable := true
  emptyList := false
  numbered := d.numberedInside
  numberedInside := d.numberedInside

end Dialect

namespace Codec

open Json

/-! ## Single parts -/

def text? : Tree → Option String
  | .text s => some s
  | _ => none

def flag? : Tree → Option Bool
  | .bool b => some b
  | _ => none

/-- An integer in the range of the natural numbers below `bound`. -/
def natural? (bound : Nat) : Tree → Option Nat
  | .int (.ofNat n) => if n < bound then some n else none
  | _ => none

def word32? (t : Tree) : Option UInt32 := (natural? UInt32.size t).map UInt32.ofNat

def word64? (t : Tree) : Option UInt64 := (natural? UInt64.size t).map UInt64.ofNat

/-- A float, or the float nearest to an integer. -/
def float? : Tree → Option Binary64
  | .float x => some x
  | .int i => some (.ofInt i)
  | _ => none

def list? {α : Type} (item : Tree → Option α) : Tree → Option (List α)
  | .list items => items.mapM item
  | _ => none

def texts? : Tree → Option (List String) := list? text?

/-- A map from names to texts; of a repeated name the last entry wins. -/
def dictionary? : Tree → Option (Dictionary String)
  | .table entries =>
    (entries.mapM fun entry => (text? entry.2).map fun s => (entry.1, s)).map Dictionary.ofEntries
  | _ => none

/-! ## Records -/

/-- What stands under each field of a record with the given field names. -/
def fields? (d : Dialect) (names : List String) : Tree → Option (String → Option Tree)
  | .table entries =>
    if names.all fun name => decide ((entries.filter (·.1 = name)).length ≤ 1) then
      some fun name => entries.lookup name
    else none
  | .list items =>
    if items.length ≤ names.length ∨ d.surplus then some fun name => items[names.idxOf name]?
    else none
  | _ => none

/-- A field that has to be there. -/
def required {α : Type} (part : Option Tree) (read : Tree → Option α) : Option α := part >>= read

/-- A field that has a value when it is not there. -/
def defaulted {α : Type} (value : α) (part : Option Tree) (read : Tree → Option α) : Option α :=
  match part with
  | none => some value
  | some t => read t

/-- A field that may be missing or null. -/
def optional {α : Type} (part : Option Tree) (read : Tree → Option α) : Option (Option α) :=
  match part with
  | none | some .null => some none
  | some t => (read t).map some

/-! ## Records of several cases -/

/-- Splits a tagged record into its tag and the rest. -/
def tagged? (tag : String) : Tree → Option (Tree × Tree)
  | .table entries =>
    let rest := entries.filter (·.1 ≠ tag)
    match entries.filter (·.1 = tag) with
    | [(_, t)] => if Tree.readableEntries rest then some (t, .table rest) else none
    | _ => none
  | .list (t :: rest) => if Tree.readableItems rest then some (t, .list rest) else none
  | _ => none

/-- The case that a tag names, as its place among the names of the cases. -/
def case? (d : Dialect) (cases : List String) : Tree → Option Nat
  | .text s => cases.idxOf? s
  | .int (.ofNat n) => if d.numbered ∧ n < cases.length then some n else none
  | _ => none

/-- A case without contents: its name alone, or a table with its name and nothing under it. -/
def bare? (d : Dialect) (name : String) : Tree → Option Unit
  | .text s => if s = name then some () else none
  | .table [(s, contents)] =>
    if s ≠ name then none
    else
      match contents with
      | .null => if d.nullContents then some () else none
      | .table [] => if d.emptyTable then some () else none
      | .list [] => if d.emptyList then some () else none
      | _ => none
  | _ => none

end Codec

end WorkPlan

import WorkPlan.Decimal.Reader
import WorkPlan.Json.Value
import WorkPlan.Text.Hex

/-!
# Reading JSON texts

The reader accepts exactly the JSON grammar and delivers a tree, so that entries keep their order
and repetitions stay visible.  A number past the largest float, a string with a lone surrogate and
a container below the deepest level that may be looked at are grammatical; they are read as
unreadable parts, which only matters to those who look at them.
-/

namespace WorkPlan.Json.Reader

/-- The number of containers that may stand around one another. -/
def deepest : Nat := 127

def isBlank (c : Char) : Bool := c = ' ' || c = '\n' || c = '\t' || c = '\r'

def skipBlank (text : List Char) : List Char := text.dropWhile isBlank

/-! ## Strings -/

/-- A piece of a string: a character that stands for itself, or a 16-bit unit given by number. -/
inductive Piece
  | char (c : Char)
  | unit (u : Nat)
deriving DecidableEq, Repr

def hexUnit? (a b c d : Char) : Option Nat := do
  let a ← Text.hexValue? a
  let b ← Text.hexValue? b
  let c ← Text.hexValue? c
  let d ← Text.hexValue? d
  return ((a * 16 + b) * 16 + c) * 16 + d

def escaped? : Char → Option Char
  | '"' => some '"'
  | '\\' => some '\\'
  | '/' => some '/'
  | 'b' => some '\x08'
  | 'f' => some '\x0c'
  | 'n' => some '\n'
  | 'r' => some '\r'
  | 't' => some '\t'
  | _ => none

/-- Reads the pieces of a string up to its closing quote. -/
def readPieces : List Char → Option (List Piece × List Char)
  | [] => none
  | '"' :: rest => some ([], rest)
  | '\\' :: 'u' :: a :: b :: c :: d :: rest =>
    match hexUnit? a b c d, readPieces rest with
    | some u, some (pieces, rest) => some (.unit u :: pieces, rest)
    | _, _ => none
  | '\\' :: e :: rest =>
    match escaped? e, readPieces rest with
    | some c, some (pieces, rest) => some (.char c :: pieces, rest)
    | _, _ => none
  | c :: rest =>
    if c.toNat < 0x20 ∨ c = '\\' then none
    else
      match readPieces rest with
      | some (pieces, rest) => some (.char c :: pieces, rest)
      | none => none

/-- Joins the pieces; a surrogate that is not half of a pair has no character. -/
def joinPieces : List Piece → Option (List Char)
  | [] => some []
  | .char c :: rest => (joinPieces rest).map (c :: ·)
  | .unit u :: rest =>
    if u < 0xD800 ∨ 0xE000 ≤ u then (joinPieces rest).map (Char.ofNat u :: ·)
    else if 0xDC00 ≤ u then none
    else
      match rest with
      | .unit v :: rest =>
        if 0xDC00 ≤ v ∧ v < 0xE000 then
          (joinPieces rest).map
            (Char.ofNat (0x10000 + (u - 0xD800) * 0x400 + (v - 0xDC00)) :: ·)
        else none
      | _ => none

/-- Reads a string after its opening quote; the text is missing when it has a lone surrogate. -/
def readString (text : List Char) : Option (Option String × List Char) :=
  (readPieces text).map fun (pieces, rest) => ((joinPieces pieces).map String.ofList, rest)

/-! ## Numbers -/

def spanDigits (text : List Char) : List Char × List Char :=
  (text.takeWhile Decimal.isDigit, text.dropWhile Decimal.isDigit)

/-- The digits after a point, if there is a point. -/
def readFraction : List Char → Option (Option (List Char) × List Char)
  | '.' :: rest =>
    let (digits, rest) := spanDigits rest
    if digits.isEmpty then none else some (some digits, rest)
  | text => some (none, text)

/-- The exponent, if there is one. -/
def readExponent : List Char → Option (Option Int × List Char)
  | [] => some (none, [])
  | e :: rest =>
    if e = 'e' ∨ e = 'E' then
      let (negative, rest) := Decimal.unsigned rest
      let (digits, rest) := spanDigits rest
      if digits.isEmpty then none
      else
        let n : Int := Decimal.value digits
        some (some (if negative then -n else n), rest)
    else some (none, e :: rest)

/-- A digit run that may be the whole part of a number: no zero stands before another digit. -/
def isWhole : List Char → Bool
  | [] => false
  | '0' :: _ :: _ => false
  | _ => true

/-- The parts of a number token. -/
structure Numeral where
  negative : Bool
  whole : List Char
  fraction : Option (List Char)
  exponent : Option Int
deriving DecidableEq, Repr

namespace Numeral

/--
The integer that a token without point and exponent stands for, if it fits one of the integer
kinds.  The token `-0` is no integer.
-/
def integer? (n : Numeral) : Option Int :=
  match n.fraction, n.exponent with
  | none, none =>
    let magnitude := Decimal.value n.whole
    if n.negative then
      if magnitude ≠ 0 ∧ magnitude ≤ UInt64.size / 2 then some (-magnitude) else none
    else if magnitude < UInt64.size then some magnitude
    else none
  | _, _ => none

/-- The number without its sign. -/
def decimal (n : Numeral) : Decimal :=
  let fraction := n.fraction.getD []
  ⟨Decimal.value (n.whole ++ fraction), n.exponent.getD 0 - (fraction.length : Int)⟩

/-- The float nearest to the exact value, which is rounded once, unless it is past the largest. -/
def nearest? (n : Numeral) : Option Binary64 :=
  let x := n.decimal.round n.negative
  if x.isFinite then some x else none

end Numeral

/--
How a number that is no integer becomes a float.  `Numeral.nearest?` is one way.  A reader that
first rounds the digits to a float, and multiplies or divides it by a power of ten after that,
rounds twice and misses the nearest float at times, so the way is an argument of what follows.
-/
abbrev FloatReader := Numeral → Option Binary64

/-- Reads a numeral behind its sign. -/
def readUnsigned (negative : Bool) (text : List Char) : Option (Numeral × List Char) := do
  let (whole, text) := spanDigits text
  guard (isWhole whole)
  let (fraction, text) ← readFraction text
  let (exponent, text) ← readExponent text
  return (⟨negative, whole, fraction, exponent⟩, text)

def readNumeral : List Char → Option (Numeral × List Char)
  | '-' :: rest => readUnsigned true rest
  | text => readUnsigned false text

section

variable (float : FloatReader)

/-- What a number token stands for. -/
def numberTree (n : Numeral) : Tree :=
  match n.integer? with
  | some i => .int i
  | none =>
    match float n with
    | some x => .float x
    | none => .unreadable

def readNumber (text : List Char) : Option (Tree × List Char) :=
  (readNumeral text).map fun (n, rest) => (numberTree float n, rest)

/-! ## Values -/

/-- A container, if it is not below the deepest level. -/
def contained (depth : Nat) (t : Tree) : Tree := if depth < deepest then t else .unreadable

mutual

/-- Reads a value that begins with the first character, inside `depth` containers. -/
def readValue : Nat → Nat → List Char → Option (Tree × List Char)
  | 0, _, _ => none
  | fuel + 1, depth, text =>
    match text with
    | 'n' :: 'u' :: 'l' :: 'l' :: rest => some (.null, rest)
    | 't' :: 'r' :: 'u' :: 'e' :: rest => some (.bool true, rest)
    | 'f' :: 'a' :: 'l' :: 's' :: 'e' :: rest => some (.bool false, rest)
    | '"' :: rest =>
      (readString rest).map fun (s, rest) =>
        (match s with | some s => .text s | none => .unreadable, rest)
    | '[' :: rest =>
      match skipBlank rest with
      | ']' :: rest => some (contained depth (.list []), rest)
      | rest =>
        (readItems fuel (depth + 1) rest).map fun (items, rest) =>
          (contained depth (.list items), rest)
    | '\x7b' :: rest =>
      match skipBlank rest with
      | '\x7d' :: rest => some (contained depth (.table []), rest)
      | rest =>
        (readMembers fuel (depth + 1) rest).map fun (entries, rest) =>
          (match entries with
            | some entries => contained depth (.table entries)
            | none => .unreadable, rest)
    | text => readNumber float text

def readItems : Nat → Nat → List Char → Option (List Tree × List Char)
  | 0, _, _ => none
  | fuel + 1, depth, text => do
    let (item, rest) ← readValue fuel depth (skipBlank text)
    match skipBlank rest with
    | ',' :: rest =>
      let (items, rest) ← readItems fuel depth rest
      return (item :: items, rest)
    | ']' :: rest => return ([item], rest)
    | _ => none

/-- Reads the members of an object up to its closing brace; a name without text spoils them all. -/
def readMembers : Nat → Nat → List Char → Option (Option (List (String × Tree)) × List Char)
  | 0, _, _ => none
  | fuel + 1, depth, text =>
    match skipBlank text with
    | '"' :: rest => do
      let (name, rest) ← readString rest
      match skipBlank rest with
      | ':' :: rest =>
        let (value, rest) ← readValue fuel depth (skipBlank rest)
        let entry := name.map fun name => (name, value)
        match skipBlank rest with
        | ',' :: rest =>
          let (entries, rest) ← readMembers fuel depth rest
          let all := do
            let entry ← entry
            let entries ← entries
            return entry :: entries
          return (all, rest)
        | '\x7d' :: rest => return (entry.map ([·]), rest)
        | _ => none
      | _ => none
    | _ => none

end

def readTree? (text : List Char) : Option Tree :=
  match readValue float (2 * text.length + 2) 0 (skipBlank text) with
  | some (t, rest) => if (skipBlank rest).isEmpty then some t else none
  | none => none

end

end WorkPlan.Json.Reader

namespace WorkPlan.Json

/-- The tree that a JSON text writes down, its floats read in the given way. -/
def readTreeWith? (float : Reader.FloatReader) (text : String) : Option Tree :=
  Reader.readTree? float text.toList

/-- The tree that a JSON text writes down, with the nearest floats. -/
def readTree? (text : String) : Option Tree := readTreeWith? Reader.Numeral.nearest? text

/-- The value that a JSON text writes down, if every part of it has one. -/
def Value.read? (text : String) : Option Value := readTree? text >>= Value.ofTree?

end WorkPlan.Json

import WorkPlan.Data.Tree
import WorkPlan.Toml.Lexical

/-!
# Plain scalars of settings files

Booleans, integers of 64 bits with a sign, floats, and dates and times.  A date or time becomes a
table with its normal text under a name of its own.
-/

namespace WorkPlan.Toml

/-! ## Numbers -/

/-- Digits with single underscores between them, the underscores taken out. -/
def digits? (test : Char → Bool) : List Char → Option (List Char)
  | [] => none
  | [c] => if test c then some [c] else none
  | c :: '_' :: rest => if test c then (digits? test rest).map (c :: ·) else none
  | c :: rest => if test c then (digits? test rest).map (c :: ·) else none

def splitSign : List Char → Bool × List Char
  | '-' :: rest => (true, rest)
  | '+' :: rest => (false, rest)
  | s => (false, s)

/-- The digits of a whole number; a zero does not stand before another digit. -/
def wholeDigits? (s : List Char) : Option (List Char) :=
  match s with
  | ['0'] => some ['0']
  | '0' :: _ => none
  | s => digits? Decimal.isDigit s

/-- The number that digits of a base stand for. -/
def readBase? (base : Nat) (s : List Char) : Option Nat := do
  let digits ← digits? (fun c => (Text.hexValue? c).any (· < base)) s
  return digits.foldl (fun n c => base * n + (Text.hexValue? c).getD 0) 0

def integer? (s : List Char) : Option Int :=
  let small (n : Nat) : Option Int := if n < UInt64.size / 2 then some n else none
  match s with
  | '0' :: 'x' :: rest => readBase? 16 rest >>= small
  | '0' :: 'o' :: rest => readBase? 8 rest >>= small
  | '0' :: 'b' :: rest => readBase? 2 rest >>= small
  | s => do
    let (negative, rest) := splitSign s
    let n := Decimal.value (← wholeDigits? rest)
    if negative then if n ≤ UInt64.size / 2 then some (-n) else none else small n

/-- The digits after a point, if there is one. -/
def fractionDigits? : List Char → Option (List Char)
  | '.' :: rest => digits? Decimal.isDigit rest
  | [] => some []
  | _ => none

/-- The exponent after its letter, if there is one. -/
def exponent? : List Char → Option Int
  | [] => some 0
  | _ :: rest => do
    let (negative, rest) := splitSign rest
    let n : Int := Decimal.value (← digits? Decimal.isDigit rest)
    return if negative then -n else n

/-- A float; one with neither point nor exponent is none, and one above the largest is refused. -/
def float? (s : List Char) : Option Binary64 := do
  let (negative, s) := splitSign s
  if s = ['i', 'n', 'f'] then return .infinity negative
  if s = ['n', 'a', 'n'] then return .nan
  let isExponent (c : Char) := c = 'e' || c = 'E'
  let mantissa := s.takeWhile fun c => !isExponent c
  let exponent := s.dropWhile fun c => !isExponent c
  let whole := mantissa.takeWhile (· ≠ '.')
  let fraction := mantissa.dropWhile (· ≠ '.')
  guard (!fraction.isEmpty || !exponent.isEmpty)
  let whole ← wholeDigits? whole
  let fraction ← fractionDigits? fraction
  let e ← exponent? exponent
  let x := Decimal.round negative ⟨Decimal.value (whole ++ fraction), e - fraction.length⟩
  guard (x.isFinite || negative)
  return x

/-! ## Dates and times -/

/-- Takes a number of the given width from the start. -/
def fixed? (width : Nat) (s : List Char) : Rest Nat :=
  let digits := s.take width
  if digits.length = width ∧ digits.all Decimal.isDigit then
    some (Decimal.value digits, s.drop width)
  else none

def isLeap (year : Nat) : Bool := year % 4 = 0 && (year % 100 ≠ 0 || year % 400 = 0)

def daysOf (year month : Nat) : Nat :=
  if month = 2 then (if isLeap year then 29 else 28)
  else if [4, 6, 9, 11].contains month then 30
  else 31

/-- A number of at least the given width. -/
def padded (width n : Nat) : List Char :=
  let digits := Decimal.numeral n
  List.replicate (width - digits.length) '0' ++ digits

/-- Takes a date from the start; gives back its normal text. -/
def date? (s : List Char) : Option (List Char × List Char) := do
  let (year, s) ← fixed? 4 s
  let '-' :: s := s | none
  let (month, s) ← fixed? 2 s
  let '-' :: s := s | none
  let (day, s) ← fixed? 2 s
  guard (1 ≤ month ∧ month ≤ 12 ∧ 1 ≤ day ∧ day ≤ daysOf year month)
  return (padded 4 year ++ '-' :: padded 2 month ++ '-' :: padded 2 day, s)

/-- Takes a fraction of a second from the start; nine digits count. -/
def secondFraction? : List Char → Rest (List Char)
  | '.' :: s =>
    let digits := s.takeWhile Decimal.isDigit
    if digits.isEmpty then none
    else
      let counted := ((digits.take 9).reverse.dropWhile (· = '0')).reverse
      some (if counted.isEmpty then [] else '.' :: counted, s.dropWhile Decimal.isDigit)
  | s => some ([], s)

/-- Takes a time from the start; gives back its normal text. -/
def time? (s : List Char) : Option (List Char × List Char) := do
  let (hour, s) ← fixed? 2 s
  let ':' :: s := s | none
  let (minute, s) ← fixed? 2 s
  let ':' :: s := s | none
  let (second, s) ← fixed? 2 s
  let (fraction, s) ← secondFraction? s
  guard (hour ≤ 23 ∧ minute ≤ 59 ∧ second ≤ 60)
  return (padded 2 hour ++ ':' :: padded 2 minute ++ ':' :: padded 2 second ++ fraction, s)

/-- The normal text of what follows a time: nothing, or its offset, of which zero is positive. -/
def offset? : List Char → Option (List Char)
  | [] => some []
  | ['Z'] | ['z'] => some ['Z']
  | sign :: s => do
    guard (sign = '+' ∨ sign = '-')
    let (hour, s) ← fixed? 2 s
    let ':' :: s := s | none
    let (minute, s) ← fixed? 2 s
    guard (s.isEmpty ∧ hour ≤ 23 ∧ minute ≤ 59)
    let sign := if hour = 0 ∧ minute = 0 then '+' else sign
    return sign :: padded 2 hour ++ ':' :: padded 2 minute

/-- The normal text of a date, a time, or a date with a time and perhaps an offset. -/
def moment? (s : List Char) : Option (List Char) :=
  match date? s with
  | some (date, []) => some date
  | some (date, mark :: rest) => do
    guard (mark = 'T' ∨ mark = 't' ∨ mark = ' ')
    let (time, rest) ← time? rest
    return date ++ 'T' :: time ++ (← offset? rest)
  | none => do
    let (time, rest) ← time? s
    guard rest.isEmpty
    return time

/-- The name under which a date or time keeps its text. -/
def momentName : String := "$__toml_private_datetime"

/-! ## Scalars -/

def isScalarChar (c : Char) : Bool :=
  c.isAlphanum || c = '_' || c = '+' || c = '-' || c = '.' || c = ':'

def scalar? (s : List Char) : Option Tree :=
  if s = "true".toList then some (.bool true)
  else if s = "false".toList then some (.bool false)
  else
    match integer? s with
    | some i => some (.int i)
    | none =>
      match float? s with
      | some x => some (.float x)
      | none => (moment? s).map fun text => .table [(momentName, .text (String.ofList text))]

/-- The characters of a plain scalar; a space between a date and a time is one of them. -/
def scalarChars (s : List Char) : List Char :=
  let first := s.takeWhile isScalarChar
  match date? first, s.dropWhile isScalarChar with
  | some (_, []), ' ' :: c :: rest =>
    if Decimal.isDigit c then first ++ ' ' :: (c :: rest).takeWhile isScalarChar else first
  | _, _ => first

def readScalar (s : List Char) : Rest Tree :=
  let chars := scalarChars s
  (scalar? chars).map fun t => (t, s.drop chars.length)

end WorkPlan.Toml

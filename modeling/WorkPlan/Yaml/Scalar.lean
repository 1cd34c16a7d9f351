import WorkPlan.Decimal.Layout
import WorkPlan.Decimal.Reader

/-!
# Scalars of a block document

A string is written plain where that reads back as the same string, and otherwise between quotes or,
if it has several lines, as a literal block.  Lines are never folded.
-/

namespace WorkPlan.Yaml

/-! ## Characters -/

def isBreak (c : Char) : Bool :=
  c = '\n' || c = '\r' || c = '\u0085' || c = '\u2028' || c = '\u2029'

def isBlank (c : Char) : Bool := c = ' ' || c = '\t' || isBreak c

def isPrintable (c : Char) : Bool :=
  let n := c.toNat
  n = 0x0A || (0x20 ≤ n && n ≤ 0x7E) || (0xA0 ≤ n && n ≤ 0xD7FF)
    || (0xE000 ≤ n && n ≤ 0xFFFD && n ≠ 0xFEFF) || 0x10000 ≤ n

/-- The characters that have a meaning at the start of a plain scalar. -/
def isIndicator (c : Char) : Bool := "#,[]\x7b\x7d&*!|>'\"%@\x60".toList.contains c

/-! ## Strings that read as something else -/

def isWord (words : List String) (s : List Char) : Bool := words.contains (String.ofList s)

def isNull (s : List Char) : Bool := s.isEmpty || isWord ["null", "Null", "NULL", "~"] s

def isBool (s : List Char) : Bool :=
  isWord ["true", "True", "TRUE", "false", "False", "FALSE"] s

def digitOf? (base : Nat) (c : Char) : Option Nat :=
  let n :=
    if '0' ≤ c ∧ c ≤ '9' then c.toNat - 48
    else if 'a' ≤ c ∧ c ≤ 'f' then c.toNat - 87
    else if 'A' ≤ c ∧ c ≤ 'F' then c.toNat - 55
    else 16
  if n < base then some n else none

/-- The number that digits of a base stand for. -/
def readDigits? (base : Nat) : List Char → Option Nat
  | [] => none
  | s => s.foldlM (fun n c => (digitOf? base c).map (base * n + ·)) 0

/-- The digits of an integer without its sign, and their base. -/
def integerBody : List Char → Nat × List Char
  | '0' :: 'x' :: rest => (16, rest)
  | '0' :: 'o' :: rest => (8, rest)
  | '0' :: 'b' :: rest => (2, rest)
  | s => (10, s)

/-- An integer that fits into 128 bits, with or without a sign bit. -/
def isInteger (s : List Char) : Bool :=
  let (negative, rest) := Decimal.unsigned s
  let (base, digits) := integerBody rest
  match readDigits? base digits with
  | none => false
  | some n => if negative then n ≤ 1 <<< 127 else n < 1 <<< 128

/-- A zero followed by further decimal digits, with or without a sign. -/
def isZeroPadded (s : List Char) : Bool :=
  match (Decimal.unsigned s).2 with
  | '0' :: c :: rest => (c :: rest).all Decimal.isDigit
  | _ => false

/-- A decimal number that is not too large for a 64-bit float. -/
def isFiniteFloat (s : List Char) : Bool :=
  match Decimal.read? (Decimal.unsigned s).2 with
  | some d => (d.round false).isFinite
  | none => false

def isNamedFloat (s : List Char) : Bool :=
  isWord [".inf", ".Inf", ".INF"] (Decimal.unsigned s).2 || isWord [".nan", ".NaN", ".NAN"] s

/-- Whether the plain text would be read as something other than a string. -/
def isAmbiguous (s : List Char) : Bool :=
  isNull s || isBool s || isInteger s || isZeroPadded s || isFiniteFloat s || isNamedFloat s

/-! ## Styles -/

inductive Style
  | plain
  | single
  | double
  | literal
deriving DecidableEq, Repr

/-- Whether two neighbouring characters satisfy the tests. -/
def hasPair (first second : Char → Bool) : List Char → Bool
  | a :: b :: rest => (first a && second b) || hasPair first second (b :: rest)
  | _ => false

def isSpace (c : Char) : Bool := c = ' '

/-- Whether a text starts or ends with a character of a class. -/
def borders (test : Char → Bool) (s : List Char) : Bool := s.head?.any test || s.getLast?.any test

/-- Whether a text that begins with `?`, `:` or `-` goes on with a blank or ends. -/
def startsMark : List Char → Bool
  | c :: rest => (c = '?' || c = ':' || c = '-') && rest.head?.all isBlank
  | [] => false

/-- Whether a colon stands before a blank or at the end. -/
def hasMark : List Char → Bool
  | [] => false
  | c :: rest => (c = ':' && rest.head?.all isBlank) || hasMark rest

/-- Whether the text may be written plain. -/
def plainAllowed (s : List Char) : Bool :=
  !(borders isSpace s || s.any isBreak || !s.all isPrintable
    || "---".toList.isPrefixOf s || "...".toList.isPrefixOf s
    || s.head?.any isIndicator || startsMark s || hasMark s || hasPair isBlank (· = '#') s)

/-- Whether the text may be written between single quotes. -/
def singleAllowed (s : List Char) : Bool :=
  s.all isPrintable && !hasPair isBreak isSpace s && !hasPair isSpace isBreak s

/-- Whether the text may be written as a literal block. -/
def literalAllowed (s : List Char) : Bool :=
  s.all isPrintable && !hasPair isSpace isBreak s && !s.getLast?.any isSpace

def style (s : List Char) : Style :=
  if s.contains '\n' then
    if literalAllowed s then .literal else .double
  else if !isAmbiguous s && plainAllowed s then .plain
  else if singleAllowed s then .single
  else .double

/-! ## Texts -/

def spaces (n : Nat) : List Char := List.replicate n ' '

/--
The characters of a text line by line: what follows a break is indented, breaks themselves are not.
-/
def lines (write : Char → List Char) (indent : Nat) : Bool → List Char → List Char
  | _, [] => []
  | afterBreak, c :: rest =>
    if isBreak c then c :: lines write indent true rest
    else if afterBreak then spaces indent ++ write c ++ lines write indent false rest
    else write c ++ lines write indent false rest

/-- Between single quotes a quote is doubled; a line break inside is followed by the indentation. -/
def singleQuoted (indent : Nat) (s : List Char) : List Char :=
  let write (c : Char) := if c = '\'' then ['\'', '\''] else [c]
  let closing := if s.getLast?.any isBreak then spaces indent else []
  '\'' :: lines write indent false s ++ closing ++ ['\'']

def hex (width n : Nat) : List Char :=
  let digits := (Nat.toDigits 16 n).map Char.toUpper
  List.replicate (width - digits.length) '0' ++ digits

/-- The escapes of one letter. -/
def letterEscapes : List (Char × Char) :=
  [('\x00', '0'), ('\x07', 'a'), ('\x08', 'b'), ('\t', 't'), ('\n', 'n'), ('\x0b', 'v'),
    ('\x0c', 'f'), ('\r', 'r'), ('\x1b', 'e'), ('"', '"'), ('\\', '\\'), ('\u0085', 'N'),
    ('\u2028', 'L'), ('\u2029', 'P')]

/-- How a character is written between double quotes. -/
def escape (c : Char) : List Char :=
  match letterEscapes.lookup c with
  | some letter => ['\\', letter]
  | none =>
    if isPrintable c then [c]
    else if c.toNat ≤ 0xFF then '\\' :: 'x' :: hex 2 c.toNat
    else if c.toNat ≤ 0xFFFF then '\\' :: 'u' :: hex 4 c.toNat
    else '\\' :: 'U' :: hex 8 c.toNat

def doubleQuoted (s : List Char) : List Char := '"' :: s.flatMap escape ++ ['"']

/-- What says how many of the last line breaks of a literal block belong to it. -/
def chomping (s : List Char) : List Char :=
  match s.reverse with
  | [] => ['-']
  | last :: rest =>
    if !isBreak last then ['-']
    else if rest.head?.all isBreak then ['+']
    else []

/-- A literal block; its indentation is given where its first character could be taken for it. -/
def literalBlock (indent : Nat) (s : List Char) : List Char :=
  let hint := if s.head?.any fun c => isSpace c || isBreak c then ['2'] else []
  '|' :: hint ++ chomping s ++ '\n' :: lines (fun c => [c]) indent true s

/-- A string, with the indentation of any further lines. -/
def string (indent : Nat) (s : String) : List Char :=
  let s := s.toList
  match style s with
  | .plain => s
  | .single => singleQuoted indent s
  | .double => doubleQuoted s
  | .literal => literalBlock indent s

/-- Floats have the shortest digits and a bare exponent. -/
def floats : FloatLayout where
  exponentSign := ""
  nan := ".nan"
  infinity := ".inf"

end WorkPlan.Yaml

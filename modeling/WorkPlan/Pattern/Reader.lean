import WorkPlan.Pattern.Basic
import WorkPlan.Text.Blank
import WorkPlan.Text.Hex
import WorkPlan.Text.Letter

/-!
# Reading patterns

Where a pattern is spaced, blanks between its words are of no account, and a comment runs from `#` to
the end of its line.  A reader takes the characters from its start on and gives back what it read and
what is left.
-/

namespace WorkPlan.Pattern

/-- What a reader gives back: a value and the characters that are left. -/
abbrev Rest (α : Type) := Option (α × List Char)

/-! ## Blanks and comments -/

/-- What is left after blanks and comments, from inside a comment or from outside of one. -/
def skipComments (inside : Bool) : List Char → List Char
  | [] => []
  | c :: rest =>
    if inside then skipComments (c ≠ '\n') rest
    else if Text.isBlank c then skipComments false rest
    else if c = '#' then skipComments true rest
    else c :: rest

def skip (spaced : Bool) (s : List Char) : List Char :=
  if spaced then skipComments false s else s

/-- The next character after blanks; where a comment begins, the first one in the comment. -/
def peek? (spaced : Bool) (s : List Char) : Option Char :=
  if spaced then
    match s.dropWhile Text.isBlank with
    | '#' :: rest => (rest.dropWhile Text.isBlank).head?
    | rest => rest.head?
  else s.head?

/-! ## Escapes -/

/-- Takes hexadecimal digits, with blanks before each of them. -/
def readHexDigits (spaced : Bool) : Nat → List Char → Rest (List Char)
  | 0, s => some ([], s)
  | count + 1, s =>
    match skip spaced s with
    | [] => none
    | c :: rest =>
      if (Text.hexValue? c).isSome then
        (readHexDigits spaced count rest).map fun (digits, rest) => (c :: digits, rest)
      else none

def readNumbered (spaced isByte : Bool) (count : Nat) (s : List Char) : Rest Pattern :=
  match readHexDigits spaced count s with
  | some (digits, rest) => (Text.codePoint? digits).map fun c => (.char { char := c, isByte }, rest)
  | none => none

/-- The characters that letters stand for. -/
def control? : Char → Option Char
  | 'a' => some '\x07'
  | 'f' => some '\x0c'
  | 't' => some '\t'
  | 'n' => some '\n'
  | 'r' => some '\r'
  | 'v' => some '\x0b'
  | _ => none

def edge? : Char → Option Edge
  | 'A' => some .textStart
  | 'z' => some .textEnd
  | 'b' => some .wordBoundary
  | 'B' => some .noWordBoundary
  | '<' => some .wordStart
  | '>' => some .wordEnd
  | _ => none

/-- Whether an escaped character stands for itself. -/
def isEscapable (c : Char) : Bool :=
  c.toNat < 0x80 && !c.isAlphanum && c ≠ '<' && c ≠ '>'

/-- Reads what follows a backslash.  Classes with Unicode names are not known. -/
def readEscape (spaced : Bool) : List Char → Rest Pattern
  | [] => none
  | 'x' :: rest => readNumbered spaced true 2 rest
  | 'u' :: rest => readNumbered spaced false 4 rest
  | 'U' :: rest => readNumbered spaced false 8 rest
  | c :: rest =>
    if ['d', 's', 'w'].contains c then some (.oneOf (.shorthand false c), rest)
    else if ['D', 'S', 'W'].contains c then some (.oneOf (.shorthand true c.toLower), rest)
    else if isEscapable c then some (.char { char := c }, rest)
    else
      match control? c, edge? c with
      | some c, _ => some (.char { char := c }, rest)
      | none, some edge => some (.place edge, rest)
      | none, none => none

/-! ## Sets -/

def setNames : List String :=
  ["alnum", "alpha", "ascii", "blank", "cntrl", "digit", "graph", "lower", "print", "punct", "space",
    "upper", "word", "xdigit"]

/-- Reads a set such as `[:alpha:]` after its bracket. -/
def readNamedSet : List Char → Rest CharSet
  | ':' :: rest =>
    let (negated, rest) :=
      match rest with
      | '^' :: rest => (true, rest)
      | rest => (false, rest)
    let name := String.ofList (rest.takeWhile (· ≠ ':'))
    match rest.dropWhile (· ≠ ':') with
    | ':' :: ']' :: rest => if setNames.contains name then some (.named negated name, rest) else none
    | _ => none
  | _ => none

/-- Hyphens at the start of a set stand for themselves. -/
def readHyphens (spaced : Bool) : Nat → List Char → List CharSet × List Char
  | fuel + 1, '-' :: rest =>
    let (items, rest) := readHyphens spaced fuel (skip spaced rest)
    (.char { char := '-' } :: items, rest)
  | _, s => ([], s)

/--
Reads the start of a set after its bracket: whether the set is negated, and its first items.  A
closing bracket that comes first stands for itself.
-/
def readSetStart (spaced : Bool) (s : List Char) : Bool × List CharSet × List Char :=
  let (negated, s) :=
    match skip spaced s with
    | '^' :: rest => (true, skip spaced rest)
    | s => (false, s)
  match readHyphens spaced s.length s with
  | ([], ']' :: rest) => (negated, [.char { char := ']' }], rest)
  | (hyphens, rest) => (negated, hyphens, rest)

def readSetItem (spaced : Bool) : List Char → Rest Pattern
  | [] => none
  | '\\' :: rest => readEscape spaced rest
  | c :: rest => some (.char { char := c }, rest)

/-- What a character or an escape means in a set; places have no meaning there. -/
def CharSet.ofItem? : Pattern → Option CharSet
  | .char literal => some (.char literal)
  | .oneOf set => some set
  | _ => none

/-- Reads a range, or an item that no range begins with. -/
def readRange (spaced : Bool) (s : List Char) : Option (CharSet × List Char) := do
  let (first, rest) ← readSetItem spaced s
  match skip spaced rest with
  | '-' :: more =>
    if peek? spaced more = some ']' ∨ peek? spaced more = some '-' then
      return (← CharSet.ofItem? first, '-' :: more)
    let (last, rest) ← readSetItem spaced (skip spaced more)
    match first, last with
    | .char first, .char last =>
      if first.char ≤ last.char then some (.range first last, rest) else none
    | _, _ => none
  | rest => return (← CharSet.ofItem? first, rest)

/-- Joins what stands before an operator with the items behind it. -/
def CharSet.joined (left : Option (Operator × CharSet)) (items : List CharSet) : CharSet :=
  match left with
  | some (operator, left) => .combined operator left (.ofItems items)
  | none => .ofItems items

/-- Reads a set up to its closing bracket, after what stands before an operator and some items. -/
def readSet (spaced : Bool) :
    Nat → Option (Operator × CharSet) → List CharSet → List Char → Rest CharSet
  | 0, _, _, _ => none
  | fuel + 1, left, items, s =>
    match skip spaced s with
    | [] => none
    | ']' :: rest => some (.joined left items, rest)
    | '&' :: '&' :: rest =>
      readSet spaced fuel (some (.intersection, .joined left items)) [] rest
    | '-' :: '-' :: rest => readSet spaced fuel (some (.difference, .joined left items)) [] rest
    | '~' :: '~' :: rest =>
      readSet spaced fuel (some (.symmetricDifference, .joined left items)) [] rest
    | '[' :: rest =>
      match readNamedSet rest with
      | some (item, rest) => readSet spaced fuel left (items ++ [item]) rest
      | none =>
        let (negated, inner, rest) := readSetStart spaced rest
        match readSet spaced fuel none inner rest with
        | some (set, rest) => readSet spaced fuel left (items ++ [.bracketed negated set]) rest
        | none => none
    | s =>
      match readRange spaced s with
      | some (item, rest) => readSet spaced fuel left (items ++ [item]) rest
      | none => none

/-- Reads a set after its opening bracket. -/
def readBracketed (spaced : Bool) (s : List Char) : Rest Pattern :=
  let (negated, items, rest) := readSetStart spaced s
  (readSet spaced (rest.length + 1) none items rest).map fun (set, rest) =>
    (.oneOf (.bracketed negated set), rest)

/-! ## Groups -/

def flag? : Char → Option Flag
  | 'i' => some .caseless
  | 'm' => some .lines
  | 's' => some .dotAll
  | 'U' => some .lazy
  | 'u' => some .unicode
  | 'R' => some .crlf
  | 'x' => some .spaced
  | _ => none

/-- Reads the letters of flags; those behind a hyphen are switched off. -/
def readSwitch (s : List Char) : Rest Switch :=
  let isEnd (c : Char) := c = ':' || c = ')'
  let letters := s.takeWhile fun c => !isEnd c
  let known := letters.all fun c => c = '-' || (flag? c).isSome
  if known ∧ letters.Nodup ∧ letters.getLast? ≠ some '-' then
    let on := (letters.takeWhile (· ≠ '-')).filterMap flag?
    let off := (letters.dropWhile (· ≠ '-')).filterMap flag?
    some ({ on, off }, s.dropWhile fun c => !isEnd c)
  else none

def startsName (c : Char) : Bool := c = '_' || Text.isAlphabetic c

def continuesName (c : Char) : Bool :=
  c = '_' || c = '.' || c = '[' || c = ']' || Text.isAlphanumeric c

/-- Reads the name of a group up to its closing bracket. -/
def readName (s : List Char) : Rest String :=
  match s.takeWhile (· ≠ '>'), s.dropWhile (· ≠ '>') with
  | c :: cs, '>' :: rest =>
    if startsName c && cs.all continuesName then some (String.ofList (c :: cs), rest) else none
  | _, _ => none

/-- What a parenthesis opens: flags for what follows, or a group. -/
inductive Opening
  | flags (switch : Switch)
  | group (name : Option String) (switch : Switch)
deriving DecidableEq, Repr

/-- Reads what follows a parenthesis up to the content of the group. -/
def readOpening (spaced : Bool) (s : List Char) : Rest Opening :=
  match skip spaced s with
  | '?' :: 'P' :: '<' :: rest => (readName rest).map fun (name, rest) => (.group name {}, rest)
  | '?' :: '<' :: rest => (readName rest).map fun (name, rest) => (.group name {}, rest)
  | '?' :: rest =>
    match readSwitch rest with
    | some (switch, ':' :: rest) => some (.group none switch, rest)
    | some (switch, ')' :: rest) => if switch = {} then none else some (.flags switch, rest)
    | _ => none
  | rest => some (.group none {}, rest)

/-! ## Patterns -/

/-- Whether a part can be repeated; flags cannot. -/
def isRepeatable : Pattern → Bool
  | .flags _ => false
  | _ => true

/-- What is left behind the mark of a repetition that prefers fewer times. -/
def skipLazy : List Char → List Char
  | '?' :: rest => rest
  | s => s

/-- Reads a character, a place or a set. -/
def readPart (spaced : Bool) : List Char → Rest Pattern
  | [] => none
  | '.' :: rest => some (.anyChar, rest)
  | '^' :: rest => some (.place .lineStart, rest)
  | '$' :: rest => some (.place .lineEnd, rest)
  | '\\' :: rest => readEscape spaced rest
  | '[' :: rest => readBracketed spaced rest
  | c :: rest => some (.char { char := c }, rest)

/--
Reads up to the end of the group or of the text, after some branches and the parts of the last one,
the latest first.  Counts of repetitions, which stand between braces, are not known.
-/
def readChoice : Nat → Mode → List Pattern → List Pattern → List Char → Rest Pattern
  | 0, _, _, _, _ => none
  | fuel + 1, mode, branches, parts, s =>
    let spaced := mode.contains .spaced
    let closed := .ofParts parts.reverse :: branches
    match skip spaced s with
    | [] => some (.ofBranches closed.reverse, [])
    | ')' :: rest => some (.ofBranches closed.reverse, ')' :: rest)
    | '|' :: rest => readChoice fuel mode closed [] rest
    | '(' :: rest =>
      match readOpening spaced rest with
      | some (.flags switch, rest) =>
        readChoice fuel (switch.apply mode) branches (.flags switch :: parts) rest
      | some (.group name switch, rest) =>
        match readChoice fuel (switch.apply mode) [] [] rest with
        | some (part, ')' :: rest) =>
          readChoice fuel mode branches (.group name switch part :: parts) rest
        | _ => none
      | none => none
    | '\x7b' :: _ => none
    | c :: rest =>
      if ['?', '*', '+'].contains c then
        match parts with
        | part :: parts =>
          if isRepeatable part then
            readChoice fuel mode branches (.repeated part :: parts) (skipLazy rest)
          else none
        | [] => none
      else
        match readPart spaced (c :: rest) with
        | some (part, rest) => readChoice fuel mode branches (part :: parts) rest
        | none => none

/-- Reads a whole pattern, if it can be matched. -/
def read? (s : List Char) : Option Pattern :=
  match readChoice (s.length + 1) initialMode [] [] s with
  | some (pattern, []) => if pattern.isMatchable then some pattern else none
  | _ => none

end WorkPlan.Pattern

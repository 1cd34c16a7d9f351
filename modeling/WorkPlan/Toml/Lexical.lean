import WorkPlan.Decimal.Basic
import WorkPlan.Text.Hex

/-!
# Words of settings files

Blanks, comments, keys, strings and plain scalars of TOML 1.0.  A reader takes the characters from
its start on and gives back what it read and what is left.
-/

namespace WorkPlan.Toml

/-- What a reader gives back: a value and the characters that are left. -/
abbrev Rest (α : Type) := Option (α × List Char)

/-! ## Blanks and comments -/

def isBlank (c : Char) : Bool := c = ' ' || c = '\t'

def skipBlank (s : List Char) : List Char := s.dropWhile isBlank

/-- The characters that may stand in comments, and in strings but for their own quotes. -/
def isText (c : Char) : Bool :=
  c = '\t' || (0x20 ≤ c.toNat && c.toNat ≤ 0x7E) || 0x80 ≤ c.toNat

def readNewline : List Char → Rest Unit
  | '\n' :: rest => some ((), rest)
  | '\r' :: '\n' :: rest => some ((), rest)
  | _ => none

def skipComment : List Char → List Char
  | '#' :: rest => rest.dropWhile isText
  | s => s

/-- The rest of a line after its last word: blanks, a comment and the end of the line or the text. -/
def endLine (s : List Char) : Option (List Char) :=
  match skipComment (skipBlank s) with
  | [] => some []
  | s => (readNewline s).map (·.2)

/-- What is left after blanks, comments and ends of lines. -/
def skipLinesFuel : Nat → List Char → List Char
  | 0, s => s
  | fuel + 1, s =>
    match skipBlank s with
    | '#' :: rest =>
      match readNewline (rest.dropWhile isText) with
      | some (_, rest) => skipLinesFuel fuel rest
      | none => '#' :: rest
    | s =>
      match readNewline s with
      | some (_, rest) => skipLinesFuel fuel rest
      | none => s

def skipLines (s : List Char) : List Char := skipLinesFuel s.length s

/-! ## Strings -/

def escaped? : Char → Option Char
  | 'b' => some '\x08'
  | 't' => some '\t'
  | 'n' => some '\n'
  | 'f' => some '\x0c'
  | 'r' => some '\r'
  | '"' => some '"'
  | '\\' => some '\\'
  | _ => none

/-- Puts a character in front of a text that was read. -/
def withChar (c : Option Char) (r : Rest (List Char)) : Rest (List Char) :=
  match c, r with
  | some c, some (s, rest) => some (c :: s, rest)
  | _, _ => none

/-- Reads a string on one line up to its closing quote. -/
def readBasic : List Char → Rest (List Char)
  | [] => none
  | '"' :: rest => some ([], rest)
  | '\\' :: 'u' :: a :: b :: c :: d :: rest =>
    withChar (Text.codePoint? [a, b, c, d]) (readBasic rest)
  | '\\' :: 'U' :: a :: b :: c :: d :: e :: f :: g :: h :: rest =>
    withChar (Text.codePoint? [a, b, c, d, e, f, g, h]) (readBasic rest)
  | '\\' :: c :: rest => withChar (escaped? c) (readBasic rest)
  | c :: rest => if isText c && c ≠ '\\' then withChar (some c) (readBasic rest) else none

/-- Whether a backslash before the text stands at the end of its line. -/
def atLineEnd (s : List Char) : Bool := (readNewline (skipBlank s)).isSome

/--
Reads a string of several lines up to its closing quotes.  While `trimming`, blanks and ends of lines
are passed over.
-/
def readMultiBasic : Bool → List Char → Rest (List Char)
  | _, [] => none
  | _, '"' :: rest =>
    match rest with
    | '"' :: '"' :: '"' :: '"' :: rest => some (['"', '"'], rest)
    | '"' :: '"' :: '"' :: rest => some (['"'], rest)
    | '"' :: '"' :: rest => some ([], rest)
    | rest => withChar (some '"') (readMultiBasic false rest)
  | _, '\\' :: 'u' :: a :: b :: c :: d :: rest =>
    withChar (Text.codePoint? [a, b, c, d]) (readMultiBasic false rest)
  | _, '\\' :: 'U' :: a :: b :: c :: d :: e :: f :: g :: h :: rest =>
    withChar (Text.codePoint? [a, b, c, d, e, f, g, h]) (readMultiBasic false rest)
  | _, '\\' :: rest =>
    if atLineEnd rest then readMultiBasic true rest
    else
      match rest with
      | c :: rest => withChar (escaped? c) (readMultiBasic false rest)
      | [] => none
  | trimming, '\n' :: rest =>
    if trimming then readMultiBasic true rest else withChar (some '\n') (readMultiBasic false rest)
  | trimming, '\r' :: '\n' :: rest =>
    if trimming then readMultiBasic true rest else withChar (some '\n') (readMultiBasic false rest)
  | trimming, c :: rest =>
    if trimming && isBlank c then readMultiBasic true rest
    else if isText c then withChar (some c) (readMultiBasic false rest)
    else none

/-- Reads a string without escapes on one line up to its closing quote. -/
def readLiteral : List Char → Rest (List Char)
  | [] => none
  | '\'' :: rest => some ([], rest)
  | c :: rest => if isText c then withChar (some c) (readLiteral rest) else none

/-- Reads a string without escapes of several lines up to its closing quotes. -/
def readMultiLiteral : List Char → Rest (List Char)
  | [] => none
  | '\'' :: rest =>
    match rest with
    | '\'' :: '\'' :: '\'' :: '\'' :: rest => some (['\'', '\''], rest)
    | '\'' :: '\'' :: '\'' :: rest => some (['\''], rest)
    | '\'' :: '\'' :: rest => some ([], rest)
    | rest => withChar (some '\'') (readMultiLiteral rest)
  | '\n' :: rest => withChar (some '\n') (readMultiLiteral rest)
  | '\r' :: '\n' :: rest => withChar (some '\n') (readMultiLiteral rest)
  | c :: rest => if isText c then withChar (some c) (readMultiLiteral rest) else none

/-- What is left after an end of line right behind opening quotes. -/
def dropNewline (s : List Char) : List Char :=
  match readNewline s with
  | some (_, rest) => rest
  | none => s

/-! ## Keys -/

def isKeyChar (c : Char) : Bool := c.isAlphanum || c = '_' || c = '-'

def readSimpleKey : List Char → Rest String
  | '"' :: rest => (readBasic rest).map fun (s, rest) => (String.ofList s, rest)
  | '\'' :: rest => (readLiteral rest).map fun (s, rest) => (String.ofList s, rest)
  | s =>
    let name := s.takeWhile isKeyChar
    if name.isEmpty then none else some (String.ofList name, s.dropWhile isKeyChar)

/-- The number that the parts of a key and the containers around one another have to stay below. -/
def depthLimit : Nat := 80

def readKeyFuel : Nat → List Char → Rest (List String)
  | 0, _ => none
  | fuel + 1, s =>
    match readSimpleKey (skipBlank s) with
    | none => none
    | some (name, rest) =>
      match skipBlank rest with
      | '.' :: rest => (readKeyFuel fuel rest).map fun (names, rest) => (name :: names, rest)
      | rest => some ([name], rest)

/-- Reads a key with its parts, and the blanks around it. -/
def readKey (s : List Char) : Rest (List String) := readKeyFuel (depthLimit - 1) s

end WorkPlan.Toml

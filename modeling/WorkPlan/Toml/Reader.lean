import WorkPlan.Toml.Scalar

/-!
# Reading settings files

A file is a list of lines: headers that open a table, and keys with values.  A table is defined once;
one that only came into being on the way to another may still be defined, but the two ways to get
there, headers and dotted keys, do not mix.
-/

namespace WorkPlan.Toml

/-- A part of a file in the making. -/
inductive Node
  | value (tree : Tree)
  /-- A table; `implied` if it is not defined itself, `dotted` if keys with several parts made it. -/
  | table (implied dotted : Bool) (entries : List (String × Node))
  /-- Tables that headers opened one after the other under the same name. -/
  | tables (items : List Node)

namespace Node

mutual

def tree : Node → Tree
  | .value t => t
  | .table _ _ entries => .table (treeEntries entries)
  | .tables items => .list (treeItems items)

def treeItems : List Node → List Tree
  | [] => []
  | node :: rest => node.tree :: treeItems rest

def treeEntries : List (String × Node) → List (String × Tree)
  | [] => []
  | (name, node) :: rest => (name, node.tree) :: treeEntries rest

end

def replace (name : String) (node : Node) (entries : List (String × Node)) :
    List (String × Node) :=
  entries.map fun entry => if entry.1 = name then (name, node) else entry

/--
Changes the table at the end of a path.  Tables that are missing on the way come into being.  A dotted
path does not lead through a table that is defined itself.
-/
def change (dotted : Bool) (f : Node → Option Node) : List String → Node → Option Node
  | [], node => f node
  | name :: path, .table implied isDotted entries =>
    match entries.lookup name with
    | none =>
      (change dotted f path (.table true dotted [])).map fun node =>
        .table implied isDotted (entries ++ [(name, node)])
    | some (.table childImplied childDotted children) =>
      if dotted && !childImplied then none
      else
        (change dotted f path (.table childImplied childDotted children)).map fun node =>
          .table implied isDotted (replace name node entries)
    | some (.tables items) =>
      match items.getLast? with
      | none => none
      | some last =>
        (change dotted f path last).map fun node =>
          .table implied isDotted (replace name (.tables (items.dropLast ++ [node])) entries)
    | some (.value _) => none
  | _ :: _, _ => none

/-- Stores a value under a new name; only keys with several parts reach a dotted table. -/
def store (viaDots : Bool) (name : String) (t : Tree) : Node → Option Node
  | .table implied dotted entries =>
    if dotted ≠ viaDots ∨ (entries.lookup name).isSome then none
    else some (.table implied dotted (entries ++ [(name, .value t)]))
  | _ => none

def assign (key : List String) (t : Tree) (node : Node) : Option Node :=
  match key.getLast? with
  | none => none
  | some name => change true (store (1 < key.length) name t) key.dropLast node

def openTable (name : String) : Node → Option Node
  | .table implied dotted entries =>
    match entries.lookup name with
    | none => some (.table implied dotted (entries ++ [(name, .table false false [])]))
    | some (.table true false children) =>
      some (.table implied dotted (replace name (.table false false children) entries))
    | _ => none
  | _ => none

/-- Opens a further table under a name. -/
def openNext (name : String) : Node → Option Node
  | .table implied dotted entries =>
    match entries.lookup name with
    | none => some (.table implied dotted (entries ++ [(name, .tables [.table false false []])]))
    | some (.tables items) =>
      some (.table implied dotted
        (replace name (.tables (items ++ [.table false false []])) entries))
    | _ => none
  | _ => none

def empty : Node := .table false false []

end Node

/-! ## Values -/

def textOf (r : Rest (List Char)) : Rest Tree :=
  r.map fun (s, rest) => (.text (String.ofList s), rest)

mutual

/-- Reads a value inside `depth` containers. -/
def readValue : Nat → Nat → List Char → Rest Tree
  | 0, _, _ => none
  | fuel + 1, depth, s =>
    match s with
    | '"' :: '"' :: '"' :: rest => textOf (readMultiBasic false (dropNewline rest))
    | '"' :: rest => textOf (readBasic rest)
    | '\'' :: '\'' :: '\'' :: rest => textOf (readMultiLiteral (dropNewline rest))
    | '\'' :: rest => textOf (readLiteral rest)
    | '[' :: rest =>
      if depth + 1 < depthLimit then
        (readItems fuel (depth + 1) rest).map fun (items, rest) => (.list items, rest)
      else none
    | '\x7b' :: rest =>
      if depth + 1 < depthLimit then
        match skipBlank rest with
        | '\x7d' :: rest => some (.table [], rest)
        | rest =>
          (readPairs fuel (depth + 1) .empty rest).map fun (node, rest) => (node.tree, rest)
      else none
    | s => readScalar s

def readItems : Nat → Nat → List Char → Option (List Tree × List Char)
  | 0, _, _ => none
  | fuel + 1, depth, s =>
    match skipLines s with
    | ']' :: rest => some ([], rest)
    | s => do
      let (t, rest) ← readValue fuel depth s
      match skipLines rest with
      | ',' :: rest =>
        let (items, rest) ← readItems fuel depth rest
        return (t :: items, rest)
      | ']' :: rest => return ([t], rest)
      | _ => none

def readPairs : Nat → Nat → Node → List Char → Option (Node × List Char)
  | 0, _, _, _ => none
  | fuel + 1, depth, node, s => do
    let (key, rest) ← readKey s
    match rest with
    | '=' :: rest =>
      let (t, rest) ← readValue fuel depth (skipBlank rest)
      let node ← node.assign key t
      match skipBlank rest with
      | ',' :: rest => readPairs fuel depth node rest
      | '\x7d' :: rest => return (node, rest)
      | _ => none
    | _ => none

end

/-! ## Files -/

/-- What is read of a file: its root, and the header of the table that is open. -/
structure File where
  root : Node := .empty
  header : List String := []

namespace File

def enter (file : File) (key : List String) (opening : String → Node → Option Node) :
    Option File :=
  match key.getLast? with
  | none => none
  | some name =>
    (file.root.change false (opening name) key.dropLast).map fun root => { root, header := key }

def readHeader (file : File) : List Char → Option (File × List Char)
  | '[' :: '[' :: s => do
    let (key, rest) ← readKey s
    let ']' :: ']' :: rest := rest | none
    return (← file.enter key Node.openNext, rest)
  | '[' :: s => do
    let (key, rest) ← readKey s
    let ']' :: rest := rest | none
    return (← file.enter key Node.openTable, rest)
  | _ => none

def readPair (file : File) (s : List Char) : Option (File × List Char) := do
  let (key, rest) ← readKey s
  let '=' :: rest := rest | none
  let rest := skipBlank rest
  let (t, rest) ← readValue (2 * rest.length + 2) 0 rest
  let root ← file.root.change false (Node.assign key t) file.header
  return ({ file with root }, rest)

def readLines : Nat → File → List Char → Option File
  | 0, _, _ => none
  | fuel + 1, file, s =>
    match skipLines s with
    | [] => some file
    | '#' :: rest => if (rest.dropWhile isText).isEmpty then some file else none
    | '[' :: rest => do
      let (file, rest) ← file.readHeader ('[' :: rest)
      readLines fuel file (← endLine rest)
    | s => do
      let (file, rest) ← file.readPair s
      readLines fuel file (← endLine rest)

end File

/-- The tree of a file; a byte-order mark at its start is passed over. -/
def readTree? (text : String) : Option Tree :=
  let s :=
    match text.toList with
    | '\ufeff' :: rest => rest
    | s => s
  (File.readLines (s.length + 1) {} s).map fun file => file.root.tree

end WorkPlan.Toml

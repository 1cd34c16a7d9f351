import WorkPlan.Log.Condition

/-!
# Log filters

A filter is a list of directives between commas.  A directive is a level, a target, or a target with
a level; a target may be narrowed to a span and to fields of the span, as in
`target[span{field=value}]=level`.  The environment's filter is used unless it is absent or blank.
-/

namespace WorkPlan.Log

inductive Level
  | error
  | warn
  | info
  | debug
  | trace
deriving DecidableEq, Repr

/-- The most detailed level that passes; `none` lets nothing pass. -/
abbrev Threshold := Option Level

/-- A part of the program to which a directive applies; everything where nothing is given. -/
structure Scope where
  target : Option String := none
  span : Option String := none
  condition : Option Condition := none
deriving Repr

/-- What one directive asks for; without a level everything passes. -/
structure Directive where
  scope : Scope
  threshold : Threshold
deriving Repr

/-- The filter in force: the environment's one, unless it is absent or blank. -/
def filterInForce (environment : Option String) (configured : String) : String :=
  match environment with
  | some filter => if Text.isBlankText filter then configured else filter
  | none => configured

namespace Directive

/-- Thresholds by number, from nothing to everything. -/
def thresholds : List Threshold :=
  [none, some .error, some .warn, some .info, some .debug, some .trace]

def namedThresholds : List (String × Threshold) :=
  [("off", none), ("error", some .error), ("warn", some .warn), ("info", some .info),
    ("debug", some .debug), ("trace", some .trace)]

/-- Reads a number or a name, in upper or lower case. -/
def readThreshold? (text : String) : Option Threshold :=
  let digits := match text.toList with | '+' :: rest => rest | cs => cs
  if digits ≠ [] ∧ digits.all Char.isDigit then
    thresholds[digits.foldl (fun n c => 10 * n + (c.toNat - '0'.toNat)) 0]?
  else namedThresholds.lookup (text.map Char.toLower)

def startsTarget (c : Char) : Bool :=
  Text.isAlphanumeric c || c = '-' || c = ':' || c = '_'

/-- A word without blanks around it. -/
def trimBlank (s : List Char) : List Char :=
  ((s.dropWhile Text.isBlank).reverse.dropWhile Text.isBlank).reverse

/-- The characters that fill the first bytes of a text, and the rest; none may stand across the cut. -/
def cut? : Nat → List Char → Option (List Char × List Char)
  | 0, s => some ([], s)
  | _ + 1, [] => none
  | bytes + 1, c :: s =>
    if c.utf8Size ≤ bytes + 1 then
      (cut? (bytes + 1 - c.utf8Size) s).map fun (part, rest) => (c :: part, rest)
    else none

/--
A place in a directive.  The marks are found in the directive without the blanks around it; the parts
between them are taken from its text, at the same distance from the start.
-/
structure Cursor where
  word : List Char
  text : List Char

namespace Cursor

/-- Takes the part before the first character that satisfies the test. -/
def upTo? (test : Char → Bool) (c : Cursor) : Option (List Char × Cursor) :=
  let size := (c.word.takeWhile fun c => !test c).foldl (fun n c => n + c.utf8Size) 0
  (cut? size c.text).map fun (part, text) =>
    (part, { word := c.word.dropWhile fun c => !test c, text })

/-- Passes over a mark. -/
def pass? (c : Cursor) : Option Cursor :=
  (cut? 1 c.text).map fun (_, text) => { word := c.word.drop 1, text }

end Cursor

/-- Reads what follows the bracket that opens a span; gives back what follows the closing one. -/
def readSpan? (target : Option String) (c : Cursor) : Option (Scope × List Char) := do
  let (span, c) ← c.upTo? fun c => c = ']' || c = '\x7b'
  match c.word with
  | ']' :: rest => return ({ target, span := some (String.ofList span) }, rest)
  | '\x7b' :: _ =>
    let (condition, c) ← (← c.pass?).upTo? (· = '\x7d')
    guard (!condition.isEmpty)
    let condition ← Condition.read? condition
    let span := if span.isEmpty then none else some (String.ofList span)
    match c.word with
    | '\x7d' :: ']' :: rest => return ({ target, span, condition := some condition }, rest)
    | _ => none
  | _ => none

/-- Reads the scope at the start of a directive; gives back what follows it. -/
def readScope? (c : Cursor) : Option (Scope × List Char) := do
  if c.word.head? = some '[' then readSpan? none (← c.pass?)
  else
    guard (c.word.head?.any startsTarget)
    let (target, c) ← c.upTo? fun c => c = '=' || c = '['
    let target := some (String.ofList target)
    if c.word.head? = some '[' then readSpan? target (← c.pass?) else return ({ target }, c.word)

/--
Reads one directive.  A level alone applies to everything.  Blanks around a directive are of no
account, but beside a level they are part of it, so such a level is not known.
-/
def read? (text : String) : Option Directive :=
  let word := trimBlank text.toList
  if word.head?.any startsTarget && word.all fun c => c ≠ '=' && c ≠ '[' then
    match readThreshold? text with
    | some threshold => some ⟨{}, threshold⟩
    | none => some ⟨{ target := some text }, some .trace⟩
  else
    match readScope? { word, text := text.toList } with
    | some (scope, []) => some ⟨scope, some .trace⟩
    | some (scope, '=' :: level) =>
      if word.length < text.length then none
      else if level.isEmpty then some ⟨scope, some .trace⟩
      else (readThreshold? (String.ofList level)).map fun threshold => ⟨scope, threshold⟩
    | _ => none

end Directive

/-- Reads a whole filter; nothing need stand between two commas. -/
def readFilter? (filter : String) : Option (List Directive) :=
  ((filter.splitOn ",").filter fun text => !text.isEmpty).mapM Directive.read?

end WorkPlan.Log

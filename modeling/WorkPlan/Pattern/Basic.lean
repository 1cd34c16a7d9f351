/-!
# Patterns

A pattern is a regular expression.  Flags hold from where they are switched to the end of the group
around them.  What is known of characters is their number alone: a pattern that would have to know
which characters are letters, or which are the same but for case, cannot be matched.
-/

namespace WorkPlan

namespace Pattern

inductive Flag
  | caseless
  | lines
  | dotAll
  | lazy
  | unicode
  | crlf
  | spaced
deriving DecidableEq, Repr

/-- The flags that hold at a place of a pattern. -/
abbrev Mode := List Flag

/-- A change of flags. -/
structure Switch where
  on : List Flag := []
  off : List Flag := []
deriving DecidableEq, Repr

def Switch.apply (switch : Switch) (mode : Mode) : Mode :=
  switch.on ++ mode.filter fun flag => !switch.off.contains flag

/-- The mode at the start of a pattern. -/
def initialMode : Mode := [.unicode]

/-- A character that stands for itself, perhaps given by the number of a byte. -/
structure Literal where
  char : Char
  isByte : Bool := false
deriving DecidableEq, Repr

/-- A place that is matched without a character. -/
inductive Edge
  | lineStart
  | lineEnd
  | textStart
  | textEnd
  | wordBoundary
  | noWordBoundary
  | wordStart
  | wordEnd
deriving DecidableEq, Repr

/-- Whether the place depends on which characters make up words. -/
def Edge.ofWords : Edge → Bool
  | .lineStart | .lineEnd | .textStart | .textEnd => false
  | .wordBoundary | .noWordBoundary | .wordStart | .wordEnd => true

inductive Operator
  | intersection
  | difference
  | symmetricDifference
deriving DecidableEq, Repr

/-- A set of characters. -/
inductive CharSet
  | char (literal : Literal)
  | range (first last : Literal)
  /-- A set of ASCII characters with a name. -/
  | named (negated : Bool) (name : String)
  /-- The digits, blanks or word characters, by the letter that stands for them. -/
  | shorthand (negated : Bool) (letter : Char)
  | union (items : List CharSet)
  | bracketed (negated : Bool) (set : CharSet)
  | combined (operator : Operator) (left right : CharSet)
deriving Repr

end Pattern

open Pattern

inductive Pattern
  | char (literal : Literal)
  | anyChar
  | place (edge : Edge)
  | oneOf (set : CharSet)
  | flags (switch : Switch)
  /-- A part that may be there any number of times, once or never, or at least once. -/
  | repeated (part : Pattern)
  | group (name : Option String) (switch : Switch) (part : Pattern)
  | sequence (parts : List Pattern)
  | choice (parts : List Pattern)
deriving Repr

namespace Pattern

namespace CharSet

mutual

/-- The number of brackets and operators around one another. -/
def depth : CharSet → Nat
  | .union items => if items.isEmpty then 0 else 1 + depthOfItems items
  | .bracketed _ set => 1 + set.depth
  | .combined _ left right => 1 + max left.depth right.depth
  | _ => 0

def depthOfItems : List CharSet → Nat
  | [] => 0
  | item :: items => max item.depth (depthOfItems items)

end

/-- The set of what stands side by side; one item needs no union. -/
def ofItems : List CharSet → CharSet
  | [item] => item
  | items => .union items

/-- Whether a character may be in a set: its case does not matter, or it is a byte of ASCII. -/
def admits (mode : Mode) (literal : Literal) : Bool :=
  if mode.contains .unicode then !mode.contains .caseless else literal.char.toNat < 0x80

mutual

/--
Whether the members are known.  Without Unicode they are bytes, and bytes outside of ASCII are not
text, so that no complement is possible.
-/
def isKnown (mode : Mode) : CharSet → Bool
  | .char literal => admits mode literal
  | .range first last => admits mode first && admits mode last
  | .named negated _ =>
    if mode.contains .unicode then !mode.contains .caseless else !negated
  | .shorthand negated _ => !mode.contains .unicode && !negated
  | .union items => areKnown mode items
  | .bracketed negated set => set.isKnown mode && (mode.contains .unicode || !negated)
  | .combined _ left right => left.isKnown mode && right.isKnown mode

def areKnown (mode : Mode) : List CharSet → Bool
  | [] => true
  | item :: items => item.isKnown mode && areKnown mode items

end

end CharSet

mutual

/-- The number of parts around one another. -/
def depth : Pattern → Nat
  | .oneOf set => set.depth
  | .repeated part => 1 + part.depth
  | .group _ _ part => 1 + part.depth
  | .sequence parts => if parts.isEmpty then 0 else 1 + depthOfParts parts
  | .choice parts => 1 + depthOfParts parts
  | _ => 0

def depthOfParts : List Pattern → Nat
  | [] => 0
  | part :: parts => max part.depth (depthOfParts parts)

end

mutual

/-- The names of groups, in order. -/
def names : Pattern → List String
  | .repeated part => part.names
  | .group name _ part => name.toList ++ part.names
  | .sequence parts => namesOfParts parts
  | .choice parts => namesOfParts parts
  | _ => []

def namesOfParts : List Pattern → List String
  | [] => []
  | part :: parts => part.names ++ namesOfParts parts

end

/-- A sequence of parts; one part needs none. -/
def ofParts : List Pattern → Pattern
  | [part] => part
  | parts => .sequence parts

/-- A choice between branches; one branch needs none. -/
def ofBranches : List Pattern → Pattern
  | [branch] => branch
  | branches => .choice branches

mutual

/-- Follows the flags through a pattern that can be matched; gives back the mode behind it. -/
def modeAfter? (mode : Mode) : Pattern → Option Mode
  | .char literal =>
    let fits :=
      if mode.contains .unicode then !mode.contains .caseless
      else !literal.isByte || literal.char.toNat < 0x80
    if fits then some mode else none
  | .anyChar => if mode.contains .unicode then some mode else none
  | .place edge => if edge.ofWords && mode.contains .unicode then none else some mode
  | .oneOf set => if set.isKnown mode then some mode else none
  | .flags switch => some (switch.apply mode)
  | .repeated part => modeAfter? mode part
  | .group _ switch part => (modeAfter? (switch.apply mode) part).map fun _ => mode
  | .sequence parts => modeAfterParts? mode parts
  | .choice parts => modeAfterParts? mode parts

def modeAfterParts? (mode : Mode) : List Pattern → Option Mode
  | [] => some mode
  | part :: parts =>
    match modeAfter? mode part with
    | some mode => modeAfterParts? mode parts
    | none => none

end

/-- The number of parts that may stand around one another. -/
def depthLimit : Nat := 250

/-- Whether a pattern can be matched: not too deep, no name given twice, and all members known. -/
def isMatchable (pattern : Pattern) : Bool :=
  pattern.depth ≤ depthLimit && decide pattern.names.Nodup
    && (pattern.modeAfter? initialMode).isSome

end Pattern

end WorkPlan

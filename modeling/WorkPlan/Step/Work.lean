import WorkPlan.Json.Value

/-!
# Work items

A work item answers a list of arguments with a value, with a failure, or by crashing.  A crew says
how the work of each step behaves; it may keep a state between calls.  The items listed here need to
know no more of the past than how often they were called.
-/

namespace WorkPlan

open Json

/-- An error with the errors that caused it, the outermost first. -/
structure Failure where
  message : String
  causes : List String := []
deriving DecidableEq, Repr

/-- The texts of a failure and its causes. -/
def Failure.chain (f : Failure) : List String := f.message :: f.causes

inductive Outcome
  | returned (value : Value)
  | failed (failure : Failure)
  | crashed (message : String)

/-- How the work of each step, given by its number, answers its arguments in a state. -/
abbrev Crew (σ : Type) := Nat → List Value → σ → Outcome × σ

inductive Work
  /-- Always the same value. -/
  | const (value : Value)
  /-- The arguments as an array. -/
  | echo
  /-- The number of the arguments. -/
  | count
  /-- Null. -/
  | nothing
  /-- How often this work was called, this call included. -/
  | calls
  /-- The arguments that are strings, joined. -/
  | join
  /-- The argument at a place. -/
  | pick (index : Nat)
  /-- Always the same failure. -/
  | fail (failure : Failure)
  /-- A failure on each of the first calls, then always the same value. -/
  | flaky (failures : Nat) (value : Value)
  /-- A crash. -/
  | crash (message : String)

namespace Work

/-- The failure that wraps each later message around the earlier ones. -/
def wrapped (messages : List String) : Failure :=
  match messages.reverse with
  | [] => ⟨"", []⟩
  | outermost :: causes => ⟨outermost, causes⟩

/-- Answers the arguments at the call after `earlier` others. -/
def call (work : Work) (earlier : Nat) (args : List Value) : Outcome :=
  match work with
  | .const value => .returned value
  | .echo => .returned (.array args)
  | .count => .returned (.nat args.length)
  | .nothing => .returned .null
  | .calls => .returned (.nat (earlier + 1))
  | .join => .returned (.string (String.join (args.filterMap Value.string?)))
  | .pick index =>
    match args[index]? with
    | some value => .returned value
    | none => .failed ⟨"no argument " ++ toString index, []⟩
  | .fail failure => .failed failure
  | .flaky failures value =>
    if earlier < failures then .failed ⟨"attempt " ++ toString (earlier + 1), []⟩
    else .returned value
  | .crash message => .crashed message

end Work

end WorkPlan

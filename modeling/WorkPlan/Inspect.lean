import WorkPlan.Decimal.Layout
import WorkPlan.Plan
import WorkPlan.Text.Quoted

/-!
# Steps and plans for inspection

One-line texts that show the fields of a step or a plan.  Dependencies are shown by name, so the
text of a step does not grow with what lies behind it.
-/

namespace WorkPlan.Inspect

/-- Numbers below `0.0001` have a bare exponent; of two equally near numerals the greater is taken. -/
def floats : FloatLayout where
  tooSmall := -4
  tie := .greater
  exponentSign := ""
  nan := "NaN"
  infinity := "inf"

def braced (head : String) (fields : List String) : String :=
  head ++ " \x7b " ++ String.intercalate ", " fields ++ " \x7d"

def bracketed (items : List String) : String := "[" ++ String.intercalate ", " items ++ "]"

def flag (b : Bool) : String := if b then "true" else "false"

def retry (r : Retry) : String :=
  braced "RetryPolicy"
    ["max_attempts: " ++ toString r.maxAttempts.toNat,
      "interval_seconds: " ++ toString r.intervalSeconds.toNat,
      "backoff_rate: " ++ String.ofList (floats.write r.backoffRate)]

def step (c : Catalog) (identity : Nat → String) (i : Nat) : String :=
  let s := c.step i
  let rule := match s.retry with | some r => "Some(" ++ retry r ++ ")" | none => "None"
  braced "Step"
    ["id: " ++ identity i, "name: " ++ Text.quoted s.name,
      "depends_on: " ++ bracketed (s.handles.map fun j => Text.quoted (c.name j)),
      "retry: " ++ rule, ".."]

def plan (c : Catalog) (identity : Nat → String) (p : Plan) : String :=
  braced "Plan"
    ["name: " ++ Text.quoted p.name,
      "generations: " ++ bracketed (p.layers.map fun l => bracketed (l.map (step c identity))),
      "resolver_set: " ++ flag p.targets.isSome]

end WorkPlan.Inspect

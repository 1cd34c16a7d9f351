/-!
# Generated names

A generated name is a base followed by a unique part, which is never cut.  A stage that holds
several steps is named for its place in the chain.
-/

namespace WorkPlan

/-- The longest a generated step name may be. -/
def longestStepName : Nat := 63

/-- The base of a generated name when none is given. -/
def defaultNameBase : String := "step"

/--
The longest part of `base` that leaves room for a separator and the unique part, followed by both;
the unique part alone when nothing of the base is left.
-/
def uniqueName (unique base : String) (limit : Nat) : String :=
  let kept := base.toList.take (limit - (unique.length + 1))
  if kept.isEmpty then unique else String.ofList kept ++ "-" ++ unique

def parallelStageName (index : Nat) : String := "parallel-" ++ toString index

end WorkPlan

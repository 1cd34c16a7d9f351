/-!
# Sets of code points

A set of code points is given by its bounds in increasing order: where it begins, where it ends, where
it begins again, and so on.  A code point is in the set if an odd number of bounds is not above it.
-/

namespace WorkPlan.Text

def inBounds (bounds : List Nat) (n : Nat) : Bool := (bounds.takeWhile (· ≤ n)).length % 2 = 1

end WorkPlan.Text

import WorkPlan.Text.CodePoints

/-!
# Blank characters

The characters with the Unicode property `White_Space`, and texts made of them alone.
-/

namespace WorkPlan.Text

/-- The bounds of the Unicode property `White_Space`. -/
def blankBounds : List Nat :=
  [0x09, 0x0E, 0x20, 0x21, 0x85, 0x86, 0xA0, 0xA1, 0x1680, 0x1681, 0x2000, 0x200B, 0x2028, 0x202A,
    0x202F, 0x2030, 0x205F, 0x2060, 0x3000, 0x3001]

def isBlank (c : Char) : Bool := inBounds blankBounds c.toNat

def isBlankText (s : String) : Bool := s.toList.all isBlank

end WorkPlan.Text

/-!
# Sets of characters given by ranges

A property of characters that a standard defines by a table is kept as a list of
ranges of code points, both ends belonging to a range.
-/

namespace TemplateInventory.Text

/-- Whether the code point lies in one of the ranges. -/
def inRanges (ranges : List (Nat × Nat)) (code : Nat) : Bool :=
  ranges.any fun r => r.1 ≤ code && code ≤ r.2

end TemplateInventory.Text

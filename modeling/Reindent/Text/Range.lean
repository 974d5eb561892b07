/-!
# Ranges of code points

A property of characters is stored as a list of closed ranges of code points in ascending order.
-/

namespace Reindent.Text

/-- Whether a code point lies in one of the ranges. -/
def inRanges (ranges : List (Nat × Nat)) (n : Nat) : Bool :=
  ranges.any fun r => r.1 ≤ n && n ≤ r.2

end Reindent.Text

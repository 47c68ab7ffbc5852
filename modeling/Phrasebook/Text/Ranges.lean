/-!
# Ranges of code points

Sets of characters given as a list of closed ranges of code points, in increasing order.
-/

namespace Phrasebook.Text

/-- Whether `n` lies in one of the ranges. The list is in increasing order, so the search ends at
the first range that starts above `n`. -/
def inRanges : List (Nat × Nat) → Nat → Bool
  | [], _ => false
  | (lo, hi) :: rest, n => if n < lo then false else if n ≤ hi then true else inRanges rest n

end Phrasebook.Text

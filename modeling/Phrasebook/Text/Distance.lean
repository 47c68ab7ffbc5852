/-!
# Edit distance

The least number of insertions, deletions and replacements of characters that turn one text into
another, computed row by row.
-/

namespace Phrasebook.Text

/-- One row of the distance table from the row above. `above` holds the distances for the shorter
source, `corner` the entry above and to the left, `left` the entry to the left. -/
def distanceRow (c : Char) : List Char → (corner left : Nat) → (above : List Nat) → List Nat
  | t :: ts, corner, left, up :: above =>
    let entry := min (min (up + 1) (left + 1)) (if c = t then corner else corner + 1)
    entry :: distanceRow c ts up entry above
  | _, _, _, _ => []

/-- The distance rows of every further source character, starting below `row`. -/
def distanceRows (target : List Char) : List Char → (row : List Nat) → List Nat
  | [], row => row
  | c :: cs, row =>
    match row with
    | [] => []
    | corner :: above =>
      distanceRows target cs ((corner + 1) :: distanceRow c target corner (corner + 1) above)

/-- The edit distance between two texts. -/
def editDistance (source target : List Char) : Nat :=
  ((distanceRows target source (List.range (target.length + 1))).getLast?).getD 0

end Phrasebook.Text

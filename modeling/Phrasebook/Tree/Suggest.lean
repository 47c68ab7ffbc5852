import Phrasebook.Text.Distance

/-!
# Suggestions

For a name that is not there, the names that are there and differ from it by a slip or two: by one
edit for names of up to three characters, by at most two for longer ones. The nearest come first,
names equally near in their order, and at most three are kept.
-/

namespace Phrasebook.Tree

open Text

/-- How many edits away a suggestion may be. -/
def slipLimit (target : String) : Nat :=
  if target.length ≤ 3 then 1 else 2

/-- The candidates near enough to the target, with their distances. -/
def nearby (target : String) (available : List String) : List (Nat × String) :=
  (available.map fun name => (editDistance target.toList name.toList, name)).filter
    fun (distance, _) => 0 < distance && distance ≤ slipLimit target

/-- Whether one candidate comes before another or may stand beside it. -/
def ranksBefore (a b : Nat × String) : Bool :=
  a.1 < b.1 || (a.1 == b.1 && a.2 ≤ b.2)

/-- The best suggestions for a name, best first. -/
def suggest (target : String) (available : List String) : List String :=
  (((nearby target available).mergeSort ranksBefore).take 3).map Prod.snd

end Phrasebook.Tree

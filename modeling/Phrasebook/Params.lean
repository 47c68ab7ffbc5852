import Phrasebook.Table
import Phrasebook.Value

/-!
# Parameters

The parameters of one request: a table from names to values. It does not remember in which order or
how often a name was given, so requests that mean the same have equal parameters.

They are made of a list of bindings in two passes. A stable sort brings the bindings of one name
together and leaves them in their order. Then the sorted list is gone through once, and a value
whose name is the one kept last is written over the value kept. A look-up halves the entries until
it meets the name. What is made is the table of the list, and this look-up gives what `Table.get?`
gives (`Params.ofPairs_eq_ofList`, `Params.find?_eq_get?`).
-/

namespace Phrasebook

/-- The parameters of a request. -/
abbrev Params := Table Value

namespace Params

/-- Sorts bindings by their names. Bindings of one name stay in their order. -/
def sortByName (bindings : List (String × Value)) : List (String × Value) :=
  bindings.mergeSort fun a b => (compare a.1 b.1).isLE

/-- Takes in one more binding: its value is written over the value kept last if that has the same
name, and the binding is added if not. -/
def keep (kept : List (String × Value)) (binding : String × Value) : List (String × Value) :=
  match kept.getLast? with
  | some last =>
    if last.1 = binding.1 then kept.dropLast ++ [(last.1, binding.2)] else kept ++ [binding]
  | none => kept ++ [binding]

/-- The parameters made of a list of bindings; of several bindings of one name the last counts. -/
def ofPairs (bindings : List (String × Value)) : Params :=
  ⟨(sortByName bindings).foldl keep []⟩

/-- Searches for a name by halving, from the position `low` on and before the position `high`. Only
positions of the list are read, and what is found is one of them. -/
def searchBetween (entries : List (String × Value)) (name : String) (low high : Nat)
    (hhigh : high ≤ entries.length) : Option (Fin entries.length) :=
  if hlow : low < high then
    let middle : Fin entries.length := ⟨low + (high - low) / 2, by omega⟩
    match compare entries[middle].1 name with
    | .eq => some middle
    | .lt => searchBetween entries name (middle + 1) high hhigh
    | .gt => searchBetween entries name low middle (Nat.le_of_lt middle.isLt)
  else none
termination_by high - low
decreasing_by
  all_goals omega

/-- Looks a name up by a search among all entries. -/
def find? (params : Params) (name : String) : Option Value :=
  (searchBetween params.entries name 0 params.entries.length (Nat.le_refl _)).map
    fun position => params.entries[position].2

end Params

end Phrasebook

import Phrasebook.Failure
import Phrasebook.Tree.Basic
import Phrasebook.Tree.Suggest

/-!
# Finding entries

A key is followed from the root one segment at a time. It has to end at an entry: a key that names a
group, or goes on below an entry, is missing. Where a segment is absent its siblings are searched
for suggestions.
-/

namespace Phrasebook.Tree

/-- The keys next to a missing one: the segments on the way to it, then a sibling with a similar
name. -/
def siblingSuggestions (way : List String) (b : Branch) (segment : String) : List String :=
  (suggest segment b.segments).map fun name => Key.join (way ++ [name])

/-- Follows segments down from a group that was reached by `way`. The failure is the list of
suggestions. -/
def walk (way : List String) (b : Branch) : List String → Except (List String) Node
  | [] => .error []
  | segment :: rest =>
    match b.get? segment with
    | none => .error (siblingSuggestions way b segment)
    | some (.branch children) =>
      match rest with
      | [] => .error []
      | _ :: _ => walk (way ++ [segment]) children rest
    | some node =>
      match rest with
      | [] => .ok node
      | _ :: _ => .error []

/-- The entry of a key in the tree of a locale. -/
def find (root : Branch) (key locale : String) : Except Failure Node :=
  match Key.split key with
  | .error fault => .error (.invalidKey key fault)
  | .ok segments =>
    match walk [] root segments with
    | .error suggestions => .error (.missingKey key locale suggestions)
    | .ok node => .ok node

end Phrasebook.Tree

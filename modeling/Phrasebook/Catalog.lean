import Phrasebook.Key
import Phrasebook.Table
import Phrasebook.Tree.Basic

/-!
# Catalogs

A catalog holds one entry tree for each locale. It is never changed in place: every change makes a
new catalog with the next generation number.
-/

namespace Phrasebook

mutual

/-- The keys of the entries of a node at a path, in the order of the document. -/
def Node.keysAt (path : List String) : Node → List String
  | .branch children => Branch.keysBelow path children
  | _ => [Key.join path]

/-- The keys of the entries of a group at a path, in the order of the document. -/
def Branch.keysBelow (path : List String) : List (String × Node) → List String
  | [] => []
  | (segment, node) :: rest => node.keysAt (path ++ [segment]) ++ Branch.keysBelow path rest

end

/-- The entry trees of all locales. -/
structure Catalog where
  /-- The trees by locale. -/
  locales : Table Branch := .empty
  /-- Counts the changes that led to this catalog. The count has no bound here; that a counter of 64
  bits begins again after `2 ^ 64` changes is left out. -/
  generation : Nat := 0
  deriving DecidableEq

namespace Catalog

/-- The catalog without locales. -/
def empty : Catalog := {}

instance : Inhabited Catalog := ⟨empty⟩

/-- The tree of a locale. -/
def root? (c : Catalog) (locale : String) : Option Branch :=
  c.locales.get? locale

/-- Whether a locale is there. -/
def hasLocale (c : Catalog) (locale : String) : Bool :=
  c.locales.contains locale

/-- The keys of a locale in the order of the document; none for an unknown locale. -/
def keys (c : Catalog) (locale : String) : List String :=
  match c.root? locale with
  | some root => Branch.keysBelow [] root
  | none => []

/-- The number of entries of a locale; zero for an unknown locale. -/
def keyCount (c : Catalog) (locale : String) : Nat :=
  match c.root? locale with
  | some root => Branch.entryCount root
  | none => 0

/-- The next catalog, with this tree for a locale. -/
def withLocale (c : Catalog) (locale : String) (root : Branch) : Catalog :=
  ⟨c.locales.insert locale root, c.generation + 1⟩

/-- The next catalog, without a locale. -/
def withoutLocale (c : Catalog) (locale : String) : Catalog :=
  ⟨c.locales.erase locale, c.generation + 1⟩

/-- The same trees under another generation number. -/
def stamped (c : Catalog) (generation : Nat) : Catalog :=
  { c with generation := generation }

end Catalog

end Phrasebook

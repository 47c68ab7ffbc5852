import Phrasebook.Catalog
import Phrasebook.Command.Outcome
import Phrasebook.Json.Writer
import Phrasebook.Source.Load
import Phrasebook.Template.Basic
import Phrasebook.Text.Grid
import Phrasebook.Tree.Path

/-!
# Listing keys from the command line

Every entry of a file is listed with its key, its kind, the number of its arms and the names of the
placeholders in its templates.
-/

namespace Phrasebook.Command

/-- An entry in the list. -/
structure Listed where
  /-- The key. -/
  key : String
  /-- Whether the entry is a conditional. -/
  isConditional : Bool
  /-- The number of arms. -/
  arms : Nat
  /-- The names of the placeholders. -/
  placeholders : List String
  deriving DecidableEq, Repr

namespace Listed

/-- The word for the kind of an entry. -/
def kind (row : Listed) : String :=
  if row.isConditional then "conditional" else "leaf"

/-- The entry as JSON. -/
def toJson (row : Listed) : Json :=
  .object
    [("key", .string row.key), ("kind", .string row.kind), ("arms", .number (.integer row.arms)),
      ("placeholders", .array (row.placeholders.map Json.string))]

/-- The entry as a row of a grid. -/
def cells (row : Listed) : List String :=
  [row.key, row.kind, toString row.arms, ", ".intercalate row.placeholders]

end Listed

/-- The names of the placeholders in templates, each once, in the order of their first use.
Templates that cannot be read have none. -/
def placeholdersOf (templates : List String) : List String :=
  (templates.flatMap fun template =>
    match Template.read template with
    | .ok t => t.placeholders
    | .error _ => []).eraseDups

/-- The list of a key with its node, which is no branch. -/
def listNode (key : String) : Node → List Listed
  | .leaf template => [⟨key, false, 0, placeholdersOf [template]⟩]
  | .conditional c =>
    [⟨key, true, c.arms.length, placeholdersOf (c.arms.map Arm.template ++ c.otherwise.toList)⟩]
  | .branch _ => []

/-- The locale in the wording of failures. -/
def listedLocale : String := "catalog"

/-- The list of the keys of a tree. -/
def listKeys (root : Branch) : Except Failure (List Listed) := do
  let rows ← (Branch.keysBelow [] root).mapM fun key => do
    return listNode key (← Tree.find root key listedLocale)
  return rows.flatten

/-- Lists the keys of a file. -/
def keysOfFile (files : Files) (path : String) (json : Bool) : Outcome :=
  match Nested.load files path >>= Nested.toTree with
  | .error failure => .failure ("failed to load a catalog: " ++ failure.message)
  | .ok root =>
    match listKeys root with
    | .error failure => .failure failure.message
    | .ok rows =>
      let text :=
        if json then Json.write (.array (rows.map Listed.toJson))
        else Text.Grid.render ["Key", "Kind", "Arms", "Placeholders"] (rows.map Listed.cells)
      { status := .done, output := linesOf [text] }

end Phrasebook.Command

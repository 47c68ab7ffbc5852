import Phrasebook.Toml.Statement

/-!
# TOML documents

The statements of a document build one table. A table is made by a header once, or grows by dotted
keys; tables that are only on the way to others are implicit until a header chooses them. An array
of tables grows by one table with every header of its own.
-/

namespace Phrasebook.Toml

/-- How a table came about. -/
structure Origin where
  /-- It is only on the way to another table. -/
  implicit : Bool
  /-- It is on the way of a dotted key. -/
  dotted : Bool

/-- What a key of a table holds. -/
inductive Item where
  /-- A finished value. -/
  | value (v : Nested)
  /-- A table. -/
  | table (origin : Origin) (entries : List (String × Item))
  /-- An array of tables. -/
  | tables (elements : List (List (String × Item)))
  deriving Inhabited

/-- The entries of a table in order. -/
abbrev Entries := List (String × Item)

namespace Entries

/-- Whether a key is there. -/
def has (entries : Entries) (key : String) : Bool :=
  entries.any fun entry => entry.1 == key

/-- Puts an item under a key: in the place of the one that is there, else at the end. -/
def put (key : String) (item : Item) : Entries → Entries
  | [] => [(key, item)]
  | (k, i) :: rest => if k = key then (k, item) :: rest else (k, i) :: put key item rest

/-- The entries without a key. -/
def remove (entries : Entries) (key : String) : Entries :=
  entries.filter fun entry => entry.1 != key

/-- Assigns a value to a key below a path of dotted keys, in a table with this `dotted` flag. With a
path the last table has to be one of dotted keys, without one it must not be; `viaPath` tells which.
Tables on the way are made if they are missing. -/
def assign (viaPath : Bool) (key : String) (v : Nested) :
    (path : List String) → (dotted : Bool) → Entries → Option Entries
  | [], dotted, entries =>
    if dotted != viaPath || entries.has key then none else some (entries ++ [(key, .value v)])
  | next :: path, _, entries =>
    match entries.lookup next with
    | none =>
      (assign viaPath key v path true []).map fun inner =>
        entries ++ [(next, .table ⟨true, true⟩ inner)]
    | some (.value _) => none
    | some (.table origin inner) =>
      if origin.implicit then
        (assign viaPath key v path origin.dotted inner).map fun inner =>
          entries.put next (.table origin inner)
      else none
    | some (.tables elements) =>
      match elements.getLast? with
      | none => none
      | some last =>
        (assign viaPath key v path false last).map fun last =>
          entries.put next (.tables (elements.dropLast ++ [last]))

/-- Changes the table at a path of headers: the last element of an array of tables, a table that is
there, or a new implicit one. -/
def modify (change : Entries → Option Entries) :
    (path : List String) → Entries → Option Entries
  | [], entries => change entries
  | next :: path, entries =>
    match entries.lookup next with
    | none =>
      (modify change path []).map fun inner => entries ++ [(next, .table ⟨true, false⟩ inner)]
    | some (.value _) => none
    | some (.table origin inner) =>
      (modify change path inner).map fun inner => entries.put next (.table origin inner)
    | some (.tables elements) =>
      match elements.getLast? with
      | none => none
      | some last =>
        (modify change path last).map fun last =>
          entries.put next (.tables (elements.dropLast ++ [last]))

/-- The entries of the table at a path of headers. -/
def tableAt? : (path : List String) → Entries → Option Entries
  | [], entries => some entries
  | next :: path, entries =>
    match entries.lookup next with
    | some (.table _ inner) => tableAt? path inner
    | some (.tables elements) => elements.getLast?.bind (tableAt? path)
    | _ => none

end Entries

mutual

/-- An item as a nested value. -/
def Item.toNested : Item → Nested
  | .value v => v
  | .table _ entries => .mapping (Item.entriesToNested entries)
  | .tables elements => .sequence (Item.elementsToNested elements)

/-- The entries of a table as entries of a mapping. -/
def Item.entriesToNested : List (String × Item) → List (String × Nested)
  | [] => []
  | (key, item) :: rest => (key, item.toNested) :: Item.entriesToNested rest

/-- The elements of an array of tables as mappings. -/
def Item.elementsToNested : List (List (String × Item)) → List Nested
  | [] => []
  | entries :: rest => .mapping (Item.entriesToNested entries) :: Item.elementsToNested rest

end

mutual

/-- A written value as a nested value, unless an inline table assigns something twice. -/
def Value.toNested? : Value → Option Nested
  | .scalar v => some v
  | .array items => (Value.itemsToNested? items).map .sequence
  | .inline pairs =>
    (Value.assignPairs pairs []).map fun entries => .mapping (Item.entriesToNested entries)

/-- The items of an array as nested values. -/
def Value.itemsToNested? : List Value → Option (List Nested)
  | [] => some []
  | item :: rest => do
    let first ← item.toNested?
    let more ← Value.itemsToNested? rest
    some (first :: more)

/-- Makes the assignments of an inline table one after the other. -/
def Value.assignPairs : List ((List String × String) × Value) → Entries → Option Entries
  | [], entries => some entries
  | ((path, key), value) :: rest, entries => do
    let v ← value.toNested?
    let entries ← entries.assign (!path.isEmpty) key v path false
    Value.assignPairs rest entries

end

/-- The table that assignments go to. -/
structure Chosen where
  /-- Its path. -/
  path : List String
  /-- Whether it is a new element of an array of tables. -/
  isElement : Bool
  /-- Its entries. -/
  entries : Entries

/-- A document under construction. -/
structure Draft where
  /-- The whole table, without the chosen one. -/
  root : Entries
  /-- The chosen table. -/
  chosen : Chosen

namespace Draft

/-- The draft before the first statement: the whole table is the chosen one. -/
def start : Draft := ⟨[], ⟨[], false, []⟩⟩

/-- Puts the chosen table to its place. -/
def settle (d : Draft) : Option Entries :=
  match d.chosen.path.getLast? with
  | none => some d.chosen.entries
  | some key =>
    let place (parent : Entries) : Option Entries :=
      if d.chosen.isElement then
        match parent.lookup key with
        | some (.tables elements) =>
          some (parent.put key (.tables (elements ++ [d.chosen.entries])))
        | _ => none
      else some (parent.put key (.table ⟨false, false⟩ d.chosen.entries))
    d.root.modify place d.chosen.path.dropLast

/-- Chooses the table of a header. An implicit table is taken out of its place; any other table or
value of that name is in the way. -/
def chooseTable (root : Entries) (path : List String) (key : String) : Option Draft := do
  let root ← root.modify some path
  let parent ← root.tableAt? path
  match parent.lookup key with
  | none => some ⟨root, ⟨path ++ [key], false, []⟩⟩
  | some (.table ⟨true, false⟩ entries) =>
    let root ← root.modify (fun parent => some (parent.remove key)) path
    some ⟨root, ⟨path ++ [key], false, entries⟩⟩
  | some _ => none

/-- Chooses a new element of the array of a header. -/
def chooseElement (root : Entries) (path : List String) (key : String) : Option Draft := do
  let extended (parent : Entries) : Option Entries :=
    match parent.lookup key with
    | none => some (parent ++ [(key, .tables [])])
    | some (.tables _) => some parent
    | some _ => none
  let root ← root.modify extended path
  some ⟨root, ⟨path ++ [key], true, []⟩⟩

/-- Takes one statement. -/
def take (d : Draft) : Statement → Option Draft
  | .table path => do
    let root ← d.settle
    chooseTable root path.dropLast (← path.getLast?)
  | .element path => do
    let root ← d.settle
    chooseElement root path.dropLast (← path.getLast?)
  | .assign path key value => do
    let v ← value.toNested?
    let entries ← d.chosen.entries.assign (!path.isEmpty) key v path false
    some { d with chosen := { d.chosen with entries } }

end Draft

/-- Reads a document as a nested value. -/
def read (source : String) : Option Nested := do
  let statements ← readStatements source
  let draft ← statements.foldlM Draft.take Draft.start
  let root ← draft.settle
  some (.mapping (Item.entriesToNested root))

end Phrasebook.Toml

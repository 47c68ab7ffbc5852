import Phrasebook.Yaml.Node

/-!
# Anchors

Anchors get numbers in the order of the document: each the count of the names before it. A reference
means the number that its name has at that place. A name that is given again gets a new number,
which the next new name gets too; of several nodes with one number the last is meant.
-/

namespace Phrasebook.Yaml

/-- The numbers of the names so far. -/
abbrev Names := List (String × Nat)

namespace Names

/-- Gives a name the number of names so far. -/
def number (name : String) (names : Names) : Names :=
  (name, names.length) :: names.filter (·.1 != name)

/-- Gives the anchor of a node its number. -/
def ofProperties (p : Properties String) (names : Names) : Properties Nat × Names :=
  match p.anchor with
  | none => (⟨none, p.tag⟩, names)
  | some name => (⟨some names.length, p.tag⟩, names.number name)

end Names

namespace Node

mutual

/-- The node with numbers for anchors, and the names after it. -/
def numbered : Node String → Names → Option (Node Nat × Names)
  | .reference name, names => (names.lookup name).map fun n => (.reference n, names)
  | .scalar p plain text, names =>
    let (p, names) := names.ofProperties p
    some (.scalar p plain text, names)
  | .sequence p items, names => do
    let (p, names) := names.ofProperties p
    let (items, names) ← numberedItems items names
    some (.sequence p items, names)
  | .mapping p entries, names => do
    let (p, names) := names.ofProperties p
    let (entries, names) ← numberedEntries entries names
    some (.mapping p entries, names)

/-- The items of a sequence with numbers for anchors. -/
def numberedItems : List (Node String) → Names → Option (List (Node Nat) × Names)
  | [], names => some ([], names)
  | item :: rest, names => do
    let (item, names) ← numbered item names
    let (rest, names) ← numberedItems rest names
    some (item :: rest, names)

/-- The entries of a mapping with numbers for anchors. -/
def numberedEntries :
    List (Node String × Node String) → Names → Option (List (Node Nat × Node Nat) × Names)
  | [], names => some ([], names)
  | (key, value) :: rest, names => do
    let (key, names) ← numbered key names
    let (value, names) ← numbered value names
    let (rest, names) ← numberedEntries rest names
    some ((key, value) :: rest, names)

end

/-- The number of a node, if it has an anchor. -/
def anchor? {ν : Type} : Node ν → Option ν
  | .reference _ => none
  | .scalar p _ _ => p.anchor
  | .sequence p _ => p.anchor
  | .mapping p _ => p.anchor

mutual

/-- A node and all nodes in it, in the order of the document. -/
def all {ν : Type} : Node ν → List (Node ν)
  | .reference name => [.reference name]
  | .scalar p plain text => [.scalar p plain text]
  | .sequence p items => .sequence p items :: allOfItems items
  | .mapping p entries => .mapping p entries :: allOfEntries entries

/-- The items of a sequence and all nodes in them. -/
def allOfItems {ν : Type} : List (Node ν) → List (Node ν)
  | [] => []
  | item :: rest => all item ++ allOfItems rest

/-- The keys and values of a mapping and all nodes in them. -/
def allOfEntries {ν : Type} : List (Node ν × Node ν) → List (Node ν)
  | [] => []
  | (key, value) :: rest => all key ++ all value ++ allOfEntries rest

end

/-- The nodes that references may mean, with their numbers, the last one first. -/
def targets (node : Node Nat) : List (Nat × Node Nat) :=
  (node.all.filterMap fun n => n.anchor?.map (·, n)).reverse

/-- The number of events of a node: one for a scalar or a reference, two for a sequence or a
mapping, its start and its end, and those of the nodes in it. -/
def eventCount {ν : Type} (node : Node ν) : Nat :=
  node.all.foldr (fun n count =>
    match n with
    | .sequence .. | .mapping .. => count + 2
    | _ => count + 1) 0

end Node

end Phrasebook.Yaml

import Phrasebook.Yaml.Anchor
import Phrasebook.Yaml.Plain

/-!
# YAML documents as nested values

References are replaced by the nodes that they mean. How often that may happen is limited by the
size of the document, and so is the depth of what comes out. Keys of mappings are the texts of
scalars.
-/

namespace Phrasebook.Yaml

/-- Whether a tag is local to the document. Such a tag has no meaning here. -/
def isLocal (tag : String) : Bool :=
  tag.toList.head? == some '!'

/-- The value of a scalar. Four tags ask for a kind of value, and a text that does not read like it
is a fault; with any other tag, or if it is not plain, it is a text. -/
def scalarValue? (tag : Option String) (plain : Bool) (text : String) : Option Nested :=
  match tag with
  | none => if plain then Plain.value? text else some (.string text)
  | some tag =>
    if isLocal tag then none
    else if tag = "tag:yaml.org,2002:bool" then (Plain.boolean? text).map .boolean
    else if tag = "tag:yaml.org,2002:int" then (Plain.integer? text.toList).bind Plain.ofInteger?
    else if tag = "tag:yaml.org,2002:float" then (Plain.float? text.toList).map .float
    else if tag = "tag:yaml.org,2002:null" then if Plain.isNull text then some .null else none
    else some (.string text)

namespace Node

/-- A computation with a limited number of references left to follow. -/
abbrev Limited (α : Type) := StateT Nat Option α

/-- Fails. -/
def fault {α : Type} : Limited α := fun _ => none

/-- Succeeds with a value if there is one. -/
def given {α : Type} (a : Option α) : Limited α := fun left => a.map (·, left)

/-- The node that a reference means, which counts as following it. -/
def follow (targets : List (Nat × Node Nat)) (n : Nat) : Limited (Node Nat)
  | 0 => none
  | left + 1 => (targets.lookup n).map (·, left)

/-- The node itself, or the one that it refers to. -/
def followed (targets : List (Nat × Node Nat)) : Node Nat → Limited (Node Nat)
  | .reference n => follow targets n
  | node => pure node

/-- The text of a key. -/
def keyText (targets : List (Nat × Node Nat)) (node : Node Nat) : Limited String := do
  match ← followed targets node with
  | .scalar _ _ text => pure text
  | _ => fault

/-- Fails if a sequence or a mapping has a tag that is local. -/
def checkTag (p : Properties Nat) : Limited Unit :=
  if p.tag.any isLocal then fault else pure ()

/-- The value of a node in which sequences and mappings nest at most `levels` deep. -/
def value (targets : List (Nat × Node Nat)) : (levels : Nat) → Node Nat → Limited Nested
  | levels, node => do
    match ← followed targets node, levels with
    | .scalar p plain text, _ => given (scalarValue? p.tag plain text)
    | .sequence p items, levels + 1 => do
      checkTag p
      return .sequence (← items.mapM (value targets levels))
    | .mapping p entries, levels + 1 => do
      checkTag p
      return .mapping (← entries.mapM fun (key, v) => do
        return (← keyText targets key, ← value targets levels v))
    | _, _ => fault

/-- How many references may be followed for each event of a document. -/
def maxRepetition : Nat := 100

/-- The value of a document. -/
def document (node : Node String) : Option Nested := do
  let (node, _) ← node.numbered []
  let (v, _) ← node.value node.targets maxDepth (node.eventCount * maxRepetition)
  some v

end Node

/-- Reads a document as a nested value. -/
def read (source : String) : Option Nested := do
  let tokens ← tokens? source
  let node ← Node.ofTokens? tokens
  node.document

end Phrasebook.Yaml

import Phrasebook.Yaml.Outline

/-!
# Nodes of YAML

A document is one node: a scalar, a sequence, a mapping, or a reference to a node with an anchor.
Blocks and flow collections hold nodes of both kinds, with one exception: flow collections hold no
blocks. A node that is missing is an empty scalar.
-/

namespace Phrasebook.Yaml

/-- Whether a node is a block, and where it stands. -/
inductive Setting where
  /-- In a flow collection, where no block may be. -/
  | flow
  /-- An entry of a block sequence, or a document. -/
  | block
  /-- A key or a value of a block mapping, where a sequence needs no indentation. -/
  | pair
  deriving DecidableEq, Repr

/-- The properties of a node with anchors named by `ν`. -/
structure Properties (ν : Type) where
  /-- Its anchor. -/
  anchor : Option ν
  /-- Its tag. -/
  tag : Option String

/-- No properties. -/
def Properties.none {ν : Type} : Properties ν := ⟨.none, .none⟩

/-- A node with anchors named by `ν`. -/
inductive Node (ν : Type) where
  /-- The node with an anchor. -/
  | reference (name : ν)
  /-- A scalar, plain or not. -/
  | scalar (properties : Properties ν) (plain : Bool) (text : String)
  /-- A sequence. -/
  | sequence (properties : Properties ν) (items : List (Node ν))
  /-- A mapping. -/
  | mapping (properties : Properties ν) (entries : List (Node ν × Node ν))

namespace Node

/-- The node that stands for a missing one. -/
def missing {ν : Type} : Node ν := .scalar .none true ""

/-- A reader takes what it reads off the front of a list of tokens. -/
abbrev Reader (α : Type) := List Token → Option (α × List Token)

/-- What handles of tags stand for. -/
abbrev Handles := List (String × String)

/-- How deep sequences and mappings may nest. -/
def maxDepth : Nat := 128

/-! ### Properties -/

/-- The tag with a handle. Without a handle it stands for itself. -/
def tag? (handles : Handles) (handle suffix : String) : Option String :=
  if handle.isEmpty then some suffix else (handles.lookup handle).map (· ++ suffix)

/-- Reads an anchor and a tag, in either order, each if it is there. -/
def takeProperties (handles : Handles) : Reader (Properties String)
  | .anchor name :: .tag handle suffix :: ts =>
    (tag? handles handle suffix).map fun tag => (⟨name, tag⟩, ts)
  | .tag handle suffix :: .anchor name :: ts =>
    (tag? handles handle suffix).map fun tag => (⟨name, tag⟩, ts)
  | .anchor name :: ts => some (⟨name, none⟩, ts)
  | .tag handle suffix :: ts => (tag? handles handle suffix).map fun tag => (⟨none, tag⟩, ts)
  | ts => some (.none, ts)

/-! ### Block collections -/

/-- Whether a node is missing before one of the tokens that may follow it. -/
def isMissing (followers : List Token) (ts : List Token) : Bool :=
  ts.head?.any followers.contains

/-- Reads a node, unless it is missing before one of the tokens that may follow it. -/
def takeUnless (followers : List Token) (node : Reader (Node String)) : Reader (Node String) :=
  fun ts => if isMissing followers ts then some (missing, ts) else node ts

/-- Reads the entries of a block sequence and its end. -/
def takeEntries (node : Reader (Node String)) : (bound : Nat) → Reader (List (Node String))
  | bound + 1, .entry :: ts => do
    let (first, ts) ← takeUnless [.entry, .blockEnd] node ts
    let (more, ts) ← takeEntries node bound ts
    some (first :: more, ts)
  | _, .blockEnd :: ts => some ([], ts)
  | _, _ => none

/-- Reads the entries of a sequence without indentation. -/
def takeBareEntries (node : Reader (Node String)) : (bound : Nat) → Reader (List (Node String))
  | bound + 1, .entry :: ts => do
    let (first, ts) ← takeUnless [.entry, .key, .value, .blockEnd] node ts
    let (more, ts) ← takeBareEntries node bound ts
    some (first :: more, ts)
  | _, ts => some ([], ts)

/-- Reads the value after the key of a block mapping. -/
def takeBlockValue (node : Reader (Node String)) : Reader (Node String)
  | .value :: ts => takeUnless [.key, .value, .blockEnd] node ts
  | ts => some (missing, ts)

/-- Reads the entries of a block mapping and its end. -/
def takeBlockPairs (node : Reader (Node String)) :
    (bound : Nat) → Reader (List (Node String × Node String))
  | bound + 1, .key :: ts => do
    let (key, ts) ← takeUnless [.key, .value, .blockEnd] node ts
    let (value, ts) ← takeBlockValue node ts
    let (more, ts) ← takeBlockPairs node bound ts
    some ((key, value) :: more, ts)
  | _, .blockEnd :: ts => some ([], ts)
  | _, _ => none

/-! ### Flow collections -/

/-- Reads the value after a key in a flow collection that `close` ends. -/
def takeFlowValue (close : Token) (node : Reader (Node String)) : Reader (Node String)
  | .value :: ts => takeUnless [.comma, close] node ts
  | ts => some (missing, ts)

/-- Reads the key and the value of a single pair in a flow sequence. What follows a missing key is
passed over. -/
def takeSinglePair (node : Reader (Node String)) : Reader (Node String) := fun ts => do
  let (key, ts) ←
    if isMissing [.value, .comma, .flowSequenceEnd] ts then some (missing, ts.drop 1) else node ts
  let (value, ts) ← takeFlowValue .flowSequenceEnd node ts
  some (.mapping .none [(key, value)], ts)

/-- Reads an item of a flow sequence. -/
def takeFlowItem (node : Reader (Node String)) : Reader (Node String)
  | .key :: ts => takeSinglePair node ts
  | ts => node ts

/-- Reads an entry of a flow mapping. -/
def takeFlowPair (node : Reader (Node String)) : Reader (Node String × Node String)
  | .key :: ts => do
    let (key, ts) ← takeUnless [.value, .comma, .flowMappingEnd] node ts
    let (value, ts) ← takeFlowValue .flowMappingEnd node ts
    some ((key, value), ts)
  | ts => (node ts).map fun (key, ts) => ((key, missing), ts)

/-- Reads items with commas between them and what closes them. A comma may follow the last one. -/
def takeFlowItems {α : Type} (close : Token) (item : Reader α) : (bound : Nat) → Reader (List α)
  | 0, _ => none
  | bound + 1, ts =>
    if ts.head? = some close then some ([], ts.drop 1)
    else do
      let (first, ts) ← item ts
      match ts with
      | .comma :: ts =>
        let (more, ts) ← takeFlowItems close item bound ts
        some (first :: more, ts)
      | t :: ts => if t = close then some ([first], ts) else none
      | [] => none

/-! ### Nodes -/

/-- Whether a sequence or a mapping may start with a token. -/
def opens (setting : Setting) : Token → Bool
  | .flowSequence => true
  | .flowMapping => true
  | .blockSequence => setting != .flow
  | .blockMapping => setting != .flow
  | .entry => setting == .pair
  | _ => false

/-- Reads a sequence or a mapping after its properties; `node` reads what it holds. -/
def takeCollection (node : Setting → Reader (Node String)) (p : Properties String) :
    Reader (Node String)
  | .flowSequence :: ts =>
    (takeFlowItems .flowSequenceEnd (takeFlowItem (node .flow)) ts.length ts).map
      fun (items, ts) => (.sequence p items, ts)
  | .flowMapping :: ts =>
    (takeFlowItems .flowMappingEnd (takeFlowPair (node .flow)) ts.length ts).map
      fun (entries, ts) => (.mapping p entries, ts)
  | .blockSequence :: ts =>
    (takeEntries (node .block) ts.length ts).map fun (items, ts) => (.sequence p items, ts)
  | .blockMapping :: ts =>
    (takeBlockPairs (node .pair) ts.length ts).map fun (entries, ts) => (.mapping p entries, ts)
  | ts =>
    (takeBareEntries (node .block) ts.length ts).map fun (items, ts) => (.sequence p items, ts)

/-- Reads a node; `collection` reads a sequence or a mapping. A scalar with the tag that is only an
exclamation mark has no tag. -/
def takeWith (handles : Handles) (collection : Properties String → Reader (Node String))
    (setting : Setting) : Reader (Node String)
  | .reference name :: ts => some (.reference name, ts)
  | ts => do
    let (p, ts) ← takeProperties handles ts
    if ts.head?.any (opens setting) then collection p ts
    else
      match ts with
      | .scalar plain text :: ts =>
        some (.scalar (if p.tag = some "!" then { p with tag := none } else p) plain text, ts)
      | ts => if p.anchor.isSome || p.tag.isSome then some (.scalar p true "", ts) else none

/-- Reads a node whose sequences and mappings nest at most `levels` deep. -/
def take (handles : Handles) : (levels : Nat) → Setting → Reader (Node String)
  | 0 => takeWith handles fun _ _ => none
  | levels + 1 => takeWith handles (takeCollection (take handles levels))

/-! ### Documents -/

/-- The handles that need no directive. -/
def defaultHandles : Handles :=
  [("!", "!"), ("!!", "tag:yaml.org,2002:")]

/-- Reads the directives of a document and the mark of its start. There is one version at most,
which is 1.1 or 1.2, and each handle gets one meaning. -/
def takeDirectives (versioned : Bool) (handles : Handles) : Reader Handles
  | .version major minor :: ts =>
    if versioned || major != 1 || !(minor == 1 || minor == 2) then none
    else takeDirectives true handles ts
  | .handle name meaning :: ts =>
    if (handles.lookup name).isSome then none
    else takeDirectives versioned ((name, meaning) :: handles) ts
  | .documentStart :: ts => some (handles ++ defaultHandles, ts)
  | _ => none

/-- Whether a token is the mark of a document's start or a directive before it. -/
def startsDocument : Token → Bool
  | .documentStart => true
  | .version .. => true
  | .handle .. => true
  | _ => false

/-- Reads what follows the mark of a document's start: a node, unless the document ends there. -/
def takeContent (handles : Handles) : Reader (Node String)
  | [] => some (missing, [])
  | t :: ts =>
    if startsDocument t || t == .documentEnd then some (missing, t :: ts)
    else take handles maxDepth .block (t :: ts)

/-- Reads a document. Without a directive and without a mark it starts with its node. -/
def takeDocument : Reader (Node String) := fun ts =>
  if ts.head?.any startsDocument then do
    let (handles, ts) ← takeDirectives false [] ts
    takeContent handles ts
  else take defaultHandles maxDepth .block ts

/-- The node of the only document in a list of tokens. Without tokens it is missing. -/
def ofTokens? (ts : List Token) : Option (Node String) :=
  if ts.isEmpty then some missing
  else
    match takeDocument ts with
    | some (node, rest) => if rest.all (· == .documentEnd) then some node else none
    | none => none

end Node

end Phrasebook.Yaml

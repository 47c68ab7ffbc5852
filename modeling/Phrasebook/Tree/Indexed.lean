import Phrasebook.Table
import Phrasebook.Tree.Basic

/-!
# Trees with indexes

A group finds a child without a search: beside the list of its children it has an index, which gives
the position of each segment. Every operation keeps the two in step by hand, and a position that
comes from the index is read as it is. Where no child stands at such a position the operation fails
(`OutOfRange`).

The trees are those of `Phrasebook.Tree.Basic`, where positions are searched for. `toNode` and
`toBranch` leave the indexes out.
-/

namespace Phrasebook

/-- A position that was read and is not in the list. -/
structure OutOfRange where
  /-- The position. -/
  position : Nat
  /-- The length of the list. -/
  length : Nat
  deriving DecidableEq, Repr

/-- Values under segments, in the order in which the segments were first put there, with an index of
the segments. -/
structure Indexed (α : Type) where
  /-- The segments with their values. -/
  children : List (String × α) := []
  /-- The position of each segment. -/
  index : Table Nat := .empty

namespace Indexed

variable {α : Type}

/-- No values. -/
def empty : Indexed α := {}

/-- The child at a position that comes from the index. -/
def childAt (g : Indexed α) (position : Nat) : Except OutOfRange (String × α) :=
  match g.children[position]? with
  | some child => .ok child
  | none => .error ⟨position, g.children.length⟩

/-- The value under a segment. -/
def get? (g : Indexed α) (segment : String) : Except OutOfRange (Option α) :=
  match g.index.get? segment with
  | some position => do
    let child ← g.childAt position
    return some child.2
  | none => .ok none

/-- Whether there is a value under a segment. -/
def contains (g : Indexed α) (segment : String) : Bool :=
  g.index.contains segment

/-- Puts a value under a segment: in the place of the one that is there, else at the end. -/
def upsert (g : Indexed α) (segment : String) (value : α) : Except OutOfRange (Indexed α) :=
  match g.index.get? segment with
  | some position => do
    let child ← g.childAt position
    return { g with children := g.children.set position (child.1, value) }
  | none =>
    .ok
      { children := g.children ++ [(segment, value)]
        index := g.index.insert segment g.children.length }

/-- The segments in order. -/
def segments (g : Indexed α) : List String :=
  g.children.map Prod.fst

/-- The number of children. -/
def size (g : Indexed α) : Nat :=
  g.children.length

/-- Whether there are no children. -/
def isEmpty (g : Indexed α) : Bool :=
  g.children.isEmpty

end Indexed

/-- A node of a tree with indexes. -/
inductive IndexedNode where
  /-- An entry with one template. -/
  | leaf (template : String)
  /-- An entry with arms. -/
  | conditional (entry : Conditional)
  /-- A group of nodes. -/
  | branch (group : Indexed IndexedNode)

/-- A group of a tree with indexes. -/
abbrev IndexedBranch := Indexed IndexedNode

mutual

/-- Equality of nodes, with the order of their children and with their indexes, is decidable. -/
def IndexedNode.decideEq : (a b : IndexedNode) → Decidable (a = b)
  | .leaf s, .leaf t => decidable_of_iff (s = t) (by simp)
  | .conditional c, .conditional d => decidable_of_iff (c = d) (by simp)
  | .branch ⟨xs, i⟩, .branch ⟨ys, j⟩ =>
    match IndexedNode.decideEqChildren xs ys, decEq i j with
    | isTrue hxs, isTrue hi => isTrue (by rw [hxs, hi])
    | isFalse hxs, _ => isFalse (by simp [hxs])
    | _, isFalse hi => isFalse (by simp [hi])
  | .leaf _, .conditional _ => isFalse (by simp)
  | .leaf _, .branch _ => isFalse (by simp)
  | .conditional _, .leaf _ => isFalse (by simp)
  | .conditional _, .branch _ => isFalse (by simp)
  | .branch _, .leaf _ => isFalse (by simp)
  | .branch _, .conditional _ => isFalse (by simp)

/-- Equality of children is decidable. -/
def IndexedNode.decideEqChildren : (xs ys : List (String × IndexedNode)) → Decidable (xs = ys)
  | [], [] => isTrue rfl
  | [], _ :: _ => isFalse (by simp)
  | _ :: _, [] => isFalse (by simp)
  | (s, x) :: xs, (t, y) :: ys =>
    match decEq s t, IndexedNode.decideEq x y, IndexedNode.decideEqChildren xs ys with
    | isTrue hs, isTrue hx, isTrue hxs => isTrue (by rw [hs, hx, hxs])
    | isFalse hs, _, _ => isFalse (by simp [hs])
    | _, isFalse hx, _ => isFalse (by simp [hx])
    | _, _, isFalse hxs => isFalse (by simp [hxs])

end

instance : DecidableEq IndexedNode := IndexedNode.decideEq

mutual

/-- Lays one node over another. Two groups are joined child by child; otherwise the node above
hides the one below. -/
def IndexedNode.overlay (base : IndexedNode) : IndexedNode → Except OutOfRange IndexedNode
  | .branch above =>
    match base with
    | .branch below => do return .branch (← IndexedBranch.overlay below above)
    | _ => .ok (.branch above)
  | above => .ok above

/-- Lays one group over another: the children of the group above are stored in the group below, one
after the other. -/
def IndexedBranch.overlay (base : IndexedBranch) : IndexedBranch → Except OutOfRange IndexedBranch
  | ⟨children, _⟩ => IndexedBranch.overlayChildren base children

/-- Stores children in a group, each laid over the one that is there. -/
def IndexedBranch.overlayChildren (joined : IndexedBranch) :
    List (String × IndexedNode) → Except OutOfRange IndexedBranch
  | [] => .ok joined
  | (segment, node) :: rest => do
    let found ← joined.get? segment
    let child ← found.elim (.ok node) fun old => IndexedNode.overlay old node
    let next ← joined.upsert segment child
    IndexedBranch.overlayChildren next rest

end

mutual

/-- A node without indexes. -/
def IndexedNode.toNode : IndexedNode → Node
  | .leaf template => .leaf template
  | .conditional entry => .conditional entry
  | .branch group => .branch (IndexedBranch.toBranch group)

/-- A group without indexes. -/
def IndexedBranch.toBranch : IndexedBranch → Branch
  | ⟨children, _⟩ => IndexedBranch.toChildren children

/-- Children without indexes. -/
def IndexedBranch.toChildren : List (String × IndexedNode) → List (String × Node)
  | [] => []
  | (segment, node) :: rest => (segment, node.toNode) :: IndexedBranch.toChildren rest

end

end Phrasebook

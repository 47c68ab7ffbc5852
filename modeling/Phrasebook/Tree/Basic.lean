/-!
# Entry trees

The entries of one locale form a tree. Its leaves are templates, its inner nodes are branches whose
children are named by the segments of keys; a conditional offers several templates and is a leaf as
well. The children of a branch keep the order in which they were first put there.
-/

namespace Phrasebook

/-- One offer of a conditional. -/
structure Arm where
  /-- The text of the condition. -/
  condition : String
  /-- The template that is shown if the condition holds. -/
  template : String
  deriving DecidableEq, Repr

/-- An entry that shows the template of its first arm that applies. -/
structure Conditional where
  /-- The arms in the order in which they are tried. -/
  arms : List Arm := []
  /-- The template that is shown if no arm applies. -/
  otherwise : Option String := none
  deriving DecidableEq, Repr

/-- A node of an entry tree. -/
inductive Node where
  /-- An entry with one template. -/
  | leaf (template : String)
  /-- An entry with arms. -/
  | conditional (entry : Conditional)
  /-- A group of nodes under distinct segments. -/
  | branch (children : List (String × Node))
  deriving Inhabited

mutual

/-- Equality of nodes, with the order of their children, is decidable. -/
def Node.decideEq : (a b : Node) → Decidable (a = b)
  | .leaf s, .leaf t => decidable_of_iff (s = t) (by simp)
  | .conditional c, .conditional d => decidable_of_iff (c = d) (by simp)
  | .branch xs, .branch ys =>
    match Node.decideEqChildren xs ys with
    | isTrue h => isTrue (by rw [h])
    | isFalse h => isFalse (by simpa using h)
  | .leaf _, .conditional _ => isFalse (by simp)
  | .leaf _, .branch _ => isFalse (by simp)
  | .conditional _, .leaf _ => isFalse (by simp)
  | .conditional _, .branch _ => isFalse (by simp)
  | .branch _, .leaf _ => isFalse (by simp)
  | .branch _, .conditional _ => isFalse (by simp)

/-- Equality of children is decidable. -/
def Node.decideEqChildren : (xs ys : List (String × Node)) → Decidable (xs = ys)
  | [], [] => isTrue rfl
  | [], _ :: _ => isFalse (by simp)
  | _ :: _, [] => isFalse (by simp)
  | (s, x) :: xs, (t, y) :: ys =>
    match decEq s t, Node.decideEq x y, Node.decideEqChildren xs ys with
    | isTrue hs, isTrue hx, isTrue hxs => isTrue (by rw [hs, hx, hxs])
    | isFalse hs, _, _ => isFalse (by simp [hs])
    | _, isFalse hx, _ => isFalse (by simp [hx])
    | _, _, isFalse hxs => isFalse (by simp [hxs])

end

instance : DecidableEq Node := Node.decideEq

/-- The children of a group, in the order in which their segments were first put there. -/
abbrev Branch := List (String × Node)

namespace Branch

/-- The position of a segment. -/
def position? (b : Branch) (segment : String) : Option Nat :=
  b.findIdx? fun child => child.1 == segment

/-- The child under a segment. -/
def get? (b : Branch) (segment : String) : Option Node :=
  match b.position? segment with
  | some i => (b[i]?).map Prod.snd
  | none => none

/-- Whether there is a child under a segment. -/
def contains (b : Branch) (segment : String) : Bool :=
  (b.position? segment).isSome

/-- Puts a child under a segment: in the place of the one that is there, else at the end. -/
def upsert (b : Branch) (segment : String) (node : Node) : Branch :=
  match b.position? segment with
  | some i => b.set i (segment, node)
  | none => b ++ [(segment, node)]

/-- The segments in order. -/
def segments (b : Branch) : List String :=
  b.map Prod.fst

end Branch

/-- A segment has no position exactly if it is not among the segments. -/
theorem Branch.position?_eq_none_iff {b : Branch} {segment : String} :
    b.position? segment = none ↔ segment ∉ b.segments := by
  simp only [position?, segments, List.findIdx?_eq_none_iff, List.mem_map, beq_eq_false_iff_ne]
  grind

/-- Whether a node is an entry, which has a text, and not a group. -/
def Node.isEntry : Node → Bool
  | .branch _ => false
  | _ => true

mutual

/-- Lays one node over another. Two groups are joined child by child; otherwise the node above
hides the one below. -/
def Node.overlay (base : Node) : Node → Node
  | .branch above =>
    match base with
    | .branch below => .branch (Branch.overlay below above)
    | _ => .branch above
  | above => above

/-- Lays the children of one group over another: those of the group below keep their places, those
only above follow in their order. -/
def Branch.overlay (base : Branch) : Branch → Branch
  | [] => base
  | (segment, node) :: rest =>
    let joined :=
      match base.get? segment with
      | some old => Node.overlay old node
      | none => node
    Branch.overlay (base.upsert segment joined) rest

end

mutual

/-- The number of entries of a node. -/
def Node.entryCount : Node → Nat
  | .branch children => Branch.entryCount children
  | _ => 1

/-- The number of entries of a group. -/
def Branch.entryCount : List (String × Node) → Nat
  | [] => 0
  | (_, node) :: rest => node.entryCount + Branch.entryCount rest

end

end Phrasebook

import Phrasebook.Catalog
import Phrasebook.Proofs.Key.Joining
import Phrasebook.Proofs.Tree.Children
import Phrasebook.Tree.Path

/-!
# The entries of a tree

`Branch.entriesBelow` lists the entries of a tree with the segments that lead to them, in the order
of the document. Walking a tree and listing its keys are two views of this list:

* `Branch.keysBelow_eq_map`: the keys are the joined segments of the entries;
* `Branch.mem_entriesBelow_of_walk`: a walk that ends well ends at an entry of the list;
* `Branch.WellNamed.exists_walk`: in a well named tree a walk leads to every entry of the list;
* `Branch.WellNamed.exists_find`: in a well named tree every key is found.
-/

namespace Phrasebook

mutual

/-- The entries of a node at a path, with the segments that lead to them. -/
def Node.entriesAt (path : List String) : Node → List (List String × Node)
  | .branch children => Branch.entriesBelow path children
  | node => [(path, node)]

/-- The entries of a group at a path, with the segments that lead to them. -/
def Branch.entriesBelow (path : List String) : List (String × Node) → List (List String × Node)
  | [] => []
  | (segment, node) :: rest =>
    node.entriesAt (path ++ [segment]) ++ Branch.entriesBelow path rest

end

/-- A node that is an entry is the only one at its path. -/
theorem Node.entriesAt_of_isEntry {path : List String} {node : Node} (h : node.isEntry = true) :
    node.entriesAt path = [(path, node)] := by
  cases node with
  | branch children => cases h
  | leaf template => simp [Node.entriesAt]
  | conditional entry => simp [Node.entriesAt]

/-! ### Keys -/

mutual

/-- The keys of a node are the joined segments of its entries. -/
theorem Node.keysAt_eq_map (path : List String) : (node : Node) →
    node.keysAt path = (node.entriesAt path).map fun entry => Key.join entry.1
  | .leaf _ => rfl
  | .conditional _ => rfl
  | .branch children => by
    rw [Node.keysAt, Node.entriesAt]
    exact Branch.keysBelow_eq_map path children

/-- The keys of a group are the joined segments of its entries. -/
theorem Branch.keysBelow_eq_map (path : List String) : (b : List (String × Node)) →
    Branch.keysBelow path b = (Branch.entriesBelow path b).map fun entry => Key.join entry.1
  | [] => rfl
  | (segment, node) :: rest => by
    rw [Branch.keysBelow, Branch.entriesBelow, List.map_append, Node.keysAt_eq_map,
      Branch.keysBelow_eq_map path rest]

end

namespace Branch

variable {b : Branch} {path segments : List String} {node : Node}

/-- The entries of a group are those of its children. -/
theorem mem_entriesBelow_iff {entry : List String × Node} :
    entry ∈ entriesBelow path b ↔
      ∃ child ∈ b, entry ∈ child.2.entriesAt (path ++ [child.1]) := by
  induction b with
  | nil => simp [entriesBelow]
  | cons child b ih => simp [entriesBelow, ih]

/-! ### Walks -/

/-- A walk that ends well ends at the child under its only segment, which is an entry, or goes on
from a group. -/
theorem walk_cons {way rest : List String} {segment : String}
    (h : Tree.walk way b (segment :: rest) = .ok node) :
    (rest = [] ∧ b.get? segment = some node ∧ node.isEntry = true) ∨
      ∃ children, b.get? segment = some (.branch children) ∧
        Tree.walk (way ++ [segment]) children rest = .ok node := by
  rw [Tree.walk.eq_def] at h
  dsimp only at h
  -- The child is missing, a group, from which the walk has to go on, or an entry, where it ends.
  split at h
  · cases h
  · rename_i children hchild
    split at h
    · cases h
    · exact Or.inr ⟨children, hchild, h⟩
  · rename_i child hbranch hchild
    split at h
    · cases h
      refine Or.inl ⟨rfl, hchild, ?_⟩
      cases node with
      | branch children => exact absurd rfl (hbranch children)
      | leaf template => rfl
      | conditional entry => rfl
    · cases h

/-- A walk never ends well at a group. -/
theorem isEntry_of_walk {way : List String} (h : Tree.walk way b segments = .ok node) :
    node.isEntry = true := by
  induction segments generalizing way b with
  | nil => cases h
  | cons segment rest ih =>
    rcases walk_cons h with ⟨-, -, hentry⟩ | ⟨children, -, hwalk⟩
    · exact hentry
    · exact ih hwalk

/-- A walk that ends well ends at an entry of the list. -/
theorem mem_entriesBelow_of_walk {way : List String}
    (h : Tree.walk way b segments = .ok node) (path : List String) :
    (path ++ segments, node) ∈ entriesBelow path b := by
  -- The way is only used for suggestions, so it need not be the path that the list starts from.
  induction segments generalizing way b path with
  | nil => cases h
  | cons segment rest ih =>
    rcases walk_cons h with ⟨rfl, hchild, hentry⟩ | ⟨children, hchild, hwalk⟩
    · refine mem_entriesBelow_iff.mpr ⟨_, mem_of_get? hchild, ?_⟩
      rw [Node.entriesAt_of_isEntry hentry]
      exact List.mem_singleton_self _
    · refine mem_entriesBelow_iff.mpr ⟨_, mem_of_get? hchild, ?_⟩
      rw [Node.entriesAt]
      simpa using ih hwalk (path ++ [segment])

/-- In a well named tree a walk leads to every entry of the list. -/
theorem WellNamed.exists_walk {b : Branch} (h : WellNamed b) {path target : List String}
    (hmem : (target, node) ∈ entriesBelow path b) :
    ∃ segments, target = path ++ segments ∧ segments ≠ [] ∧
      (∀ segment ∈ segments, NamesChild segment) ∧
      ∀ way, Tree.walk way b segments = .ok node := by
  obtain ⟨⟨segment, child⟩, hchild, hentry⟩ := mem_entriesBelow_iff.mp hmem
  -- The segments are distinct, so a walk finds this child and no other under its segment.
  have hget := h.get?_eq_some hchild
  obtain ⟨hname, hbelow⟩ := (wellNamed_iff.mp h).2 _ hchild
  cases child with
  | leaf template =>
    cases List.mem_singleton.mp hentry
    exact ⟨[segment], rfl, by simp, by simpa using hname, fun way => by simp [Tree.walk, hget]⟩
  | conditional entry =>
    cases List.mem_singleton.mp hentry
    exact ⟨[segment], rfl, by simp, by simpa using hname, fun way => by simp [Tree.walk, hget]⟩
  | branch children =>
    rw [Node.entriesAt] at hentry
    obtain ⟨segments, rfl, hne, hnames, hwalk⟩ := WellNamed.exists_walk hbelow hentry
    refine ⟨segment :: segments, by simp, by simp, ?_, ?_⟩
    · intro s hs
      rcases List.mem_cons.mp hs with rfl | hs
      · exact hname
      · exact hnames s hs
    · intro way
      obtain ⟨next, more, rfl⟩ := List.exists_cons_of_ne_nil hne
      rw [Tree.walk, hget]
      exact hwalk (way ++ [segment])
termination_by sizeOf b
decreasing_by
  have hsmaller := List.sizeOf_lt_of_mem hchild
  simp only [Prod.mk.sizeOf_spec, Node.branch.sizeOf_spec] at hsmaller
  omega

/-- In a well named tree every key is split into segments that lead to an entry. -/
theorem WellNamed.exists_find {b : Branch} (h : WellNamed b) {key : String}
    (hkey : key ∈ keysBelow [] b) :
    ∃ segments node, Key.split key = .ok segments ∧ Tree.walk [] b segments = .ok node := by
  rw [keysBelow_eq_map] at hkey
  obtain ⟨⟨target, node⟩, hmem, rfl⟩ := List.mem_map.mp hkey
  obtain ⟨segments, htarget, hne, hnames, hwalk⟩ := h.exists_walk hmem
  rw [List.nil_append] at htarget
  subst htarget
  refine ⟨target, node, Key.split_eq_ok_iff.mpr ⟨hne, ?_, rfl⟩, hwalk []⟩
  intro segment hsegment
  obtain ⟨hempty, hdot, -⟩ := hnames segment hsegment
  exact ⟨hempty, hdot⟩

end Branch

end Phrasebook

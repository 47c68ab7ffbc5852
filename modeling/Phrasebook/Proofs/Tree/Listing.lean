import Phrasebook.Proofs.Tree.Entries

/-!
# Listing the keys of a tree

The keys of a tree are listed in the order of the document, and looking keys up one by one tells the
same. Both are compared with relations that speak of the children of groups only:

* `Branch.Leads`: segments lead from a group down to a node;
* `Branch.Before`: one path comes before another in the order of the document.

In a tree whose groups are well named, a key is found exactly if its segments lead to an entry
(`Branch.WellNamed.find_eq_ok_iff`), it is listed exactly if it is found
(`Branch.WellNamed.mem_keysBelow_iff`), and the list follows the order of the document
(`Branch.WellNamed.pairwise_keysBelow`), without repetition (`Branch.WellNamed.nodup_keysBelow`).
-/

namespace Phrasebook

namespace Branch

/-- Segments lead from a group down to a node, through the groups under all segments but the last. -/
inductive Leads : List (String × Node) → List String → Node → Prop where
  /-- A segment leads to the child under it. -/
  | child {b : List (String × Node)} {segment : String} {node : Node} (h : (segment, node) ∈ b) :
      Leads b [segment] node
  /-- A segment leads to a group, and more segments lead on from there. -/
  | group {b children : List (String × Node)} {segment : String} {rest : List String} {node : Node}
      (h : (segment, .branch children) ∈ b) (hbelow : Leads children rest node) :
      Leads b (segment :: rest) node

/-- One path comes before another in the order of the document. -/
inductive Before : List (String × Node) → List String → List String → Prop where
  /-- The two go by different children, the first one by the earlier child. -/
  | apart {b : List (String × Node)} {s t : String} (p q : List String)
      (h : [s, t].Sublist (segments b)) : Before b (s :: p) (t :: q)
  /-- Both go by the same group, and the first one comes before the other there. -/
  | within {b children : List (String × Node)} {segment : String} {p q : List String}
      (h : (segment, .branch children) ∈ b) (hbelow : Before children p q) :
      Before b (segment :: p) (segment :: q)

variable {b : Branch} {segments p q : List String} {node : Node} {key locale : String}

/-! ### Finding -/

/-- A walk that ends well follows segments that lead to where it ends. -/
theorem leads_of_walk {way : List String} (h : Tree.walk way b segments = .ok node) :
    Leads b segments node := by
  induction segments generalizing way b with
  | nil => cases h
  | cons segment rest ih =>
    rcases walk_cons h with ⟨rfl, hchild, -⟩ | ⟨children, hchild, hwalk⟩
    · exact .child (mem_of_get? hchild)
    · exact .group (mem_of_get? hchild) (ih hwalk)

/-- In a well named tree a walk follows segments that lead to an entry. -/
theorem Leads.walk (h : Leads b segments node) (hb : WellNamed b) (hentry : node.isEntry = true)
    (way : List String) : Tree.walk way b segments = .ok node := by
  induction h generalizing way with
  | @child b segment node hchild =>
    rw [Tree.walk, hb.get?_eq_some hchild]
    cases node with
    | branch children => cases hentry
    | leaf template => rfl
    | conditional entry => rfl
  | @group b children segment rest node hchild hbelow ih =>
    have hchildren : WellNamed children := ((wellNamed_iff.mp hb).2 _ hchild).2
    have hwalk := ih hchildren hentry (way ++ [segment])
    -- Something follows the segment, since no walk ends where it begins.
    cases rest with
    | nil => cases hbelow
    | cons next more =>
      rw [Tree.walk, hb.get?_eq_some hchild]
      exact hwalk

/-- In a well named tree every segment that leads somewhere names a child. -/
theorem Leads.namesChild (h : Leads b segments node) (hb : WellNamed b) :
    segments ≠ [] ∧ ∀ segment ∈ segments, NamesChild segment := by
  induction h with
  | child hchild =>
    have hname := ((wellNamed_iff.mp hb).2 _ hchild).1
    exact ⟨by simp, by simpa using hname⟩
  | group hchild hbelow ih =>
    obtain ⟨hname, hchildren⟩ := (wellNamed_iff.mp hb).2 _ hchild
    refine ⟨by simp, ?_⟩
    intro s hs
    rcases List.mem_cons.mp hs with rfl | hs
    · exact hname
    · exact (ih hchildren).2 s hs

/-- Finding a key is splitting it and following the segments. -/
theorem find_eq_ok_iff_walk :
    Tree.find b key locale = .ok node ↔
      ∃ segments, Key.split key = .ok segments ∧ Tree.walk [] b segments = .ok node := by
  unfold Tree.find
  cases Key.split key with
  | error fault => simp
  | ok segments => cases hwalk : Tree.walk [] b segments <;> simp [hwalk]

/-- In a well named tree a key is found exactly if its segments lead to an entry, and that entry is
what is found. -/
theorem WellNamed.find_eq_ok_iff (h : WellNamed b) :
    Tree.find b key locale = .ok node ↔
      node.isEntry = true ∧ ∃ segments, Leads b segments node ∧ Key.join segments = key := by
  rw [find_eq_ok_iff_walk]
  constructor
  · rintro ⟨segments, hsplit, hwalk⟩
    obtain ⟨-, -, hjoin⟩ := Key.split_eq_ok_iff.mp hsplit
    exact ⟨isEntry_of_walk hwalk, segments, leads_of_walk hwalk, hjoin⟩
  · rintro ⟨hentry, segments, hleads, hjoin⟩
    obtain ⟨hne, hnames⟩ := hleads.namesChild h
    refine ⟨segments, Key.split_eq_ok_iff.mpr ⟨hne, ?_, hjoin⟩, hleads.walk h hentry []⟩
    intro segment hsegment
    obtain ⟨hempty, hdot, -⟩ := hnames segment hsegment
    exact ⟨hempty, hdot⟩

/-- In a well named tree a key is listed exactly if it is found. -/
theorem WellNamed.mem_keysBelow_iff (h : WellNamed b) (locale : String) :
    key ∈ keysBelow [] b ↔ ∃ node, Tree.find b key locale = .ok node := by
  simp only [find_eq_ok_iff_walk]
  constructor
  · intro hkey
    obtain ⟨segments, node, hsplit, hwalk⟩ := h.exists_find hkey
    exact ⟨node, segments, hsplit, hwalk⟩
  · rintro ⟨node, segments, hsplit, hwalk⟩
    obtain ⟨-, -, hjoin⟩ := Key.split_eq_ok_iff.mp hsplit
    rw [keysBelow_eq_map]
    have hmem := mem_entriesBelow_of_walk hwalk []
    exact List.mem_map.mpr ⟨_, hmem, by simpa using hjoin⟩

end Branch

/-! ### The order of the document -/

mutual

/-- The entries of a node at a path are those of the node itself, with the path put before them. -/
theorem Node.entriesAt_eq_map (path : List String) : (node : Node) →
    node.entriesAt path = (node.entriesAt []).map fun entry => (path ++ entry.1, entry.2)
  | .leaf _ => by simp [Node.entriesAt]
  | .conditional _ => by simp [Node.entriesAt]
  | .branch children => by
    rw [Node.entriesAt, Node.entriesAt]
    exact Branch.entriesBelow_eq_map path children

/-- The entries of a group at a path are those of the group itself, with the path put before them. -/
theorem Branch.entriesBelow_eq_map (path : List String) : (b : List (String × Node)) →
    Branch.entriesBelow path b =
      (Branch.entriesBelow [] b).map fun entry => (path ++ entry.1, entry.2)
  | [] => rfl
  | (segment, node) :: rest => by
    rw [Branch.entriesBelow, Branch.entriesBelow, List.map_append,
      Node.entriesAt_eq_map (path ++ [segment]) node, Node.entriesAt_eq_map ([] ++ [segment]) node,
      Branch.entriesBelow_eq_map path rest, List.map_map]
    simp [Function.comp_def]

end

namespace Branch

variable {b : Branch} {p q : List String}

/-- The path of an entry begins with a segment of the group. -/
theorem exists_of_mem_entriesBelow {entry : List String × Node} (h : entry ∈ entriesBelow [] b) :
    ∃ segment ∈ segments b, ∃ rest, entry.1 = segment :: rest := by
  obtain ⟨⟨segment, node⟩, hchild, hentry⟩ := mem_entriesBelow_iff.mp h
  rw [Node.entriesAt_eq_map] at hentry
  obtain ⟨below, -, rfl⟩ := List.mem_map.mp hentry
  exact ⟨segment, List.mem_map.mpr ⟨_, hchild, rfl⟩, below.1, rfl⟩

/-- A further child before all others does not change which of two paths comes first. -/
theorem Before.cons (h : Before b p q) (child : String × Node) : Before (child :: b) p q := by
  cases h with
  | apart p q hsublist => exact .apart p q (hsublist.cons _)
  | within hchild hbelow => exact .within (List.mem_cons_of_mem child hchild) hbelow

mutual

/-- The entries of a child are listed in the order of the document. -/
theorem pairwise_entriesAt {b : List (String × Node)} {segment : String} : (node : Node) →
    (segment, node) ∈ b →
      (node.entriesAt [segment]).Pairwise fun x y => Before b x.1 y.1
  | .leaf _, _ => by simp [Node.entriesAt]
  | .conditional _, _ => by simp [Node.entriesAt]
  | .branch children, hchild => by
    rw [Node.entriesAt, entriesBelow_eq_map, List.pairwise_map]
    exact (pairwise_entriesBelow children).imp fun hbefore => .within hchild hbefore

/-- The entries of a group are listed in the order of the document. -/
theorem pairwise_entriesBelow : (b : List (String × Node)) →
    (entriesBelow [] b).Pairwise fun x y => Before b x.1 y.1
  | [] => .nil
  | (segment, node) :: rest => by
    rw [entriesBelow, List.pairwise_append]
    refine ⟨pairwise_entriesAt node List.mem_cons_self, ?_, ?_⟩
    · exact (pairwise_entriesBelow rest).imp fun hbefore => hbefore.cons (segment, node)
    -- An entry of the first child comes before those of the others.
    · intro x hx y hy
      rw [Node.entriesAt_eq_map] at hx
      obtain ⟨below, -, rfl⟩ := List.mem_map.mp hx
      obtain ⟨other, hother, more, hmore⟩ := exists_of_mem_entriesBelow hy
      rw [hmore]
      refine .apart below.1 more ?_
      exact List.Sublist.cons_cons segment (List.singleton_sublist.mpr hother)

end

/-- In a well named tree no path comes before itself. -/
theorem Before.ne (h : Before b p q) (hb : WellNamed b) : p ≠ q := by
  induction h with
  | apart p q hsublist =>
    rintro ⟨⟩
    have hnodup := (wellNamed_iff.mp hb).1.sublist hsublist
    simp at hnodup
  | within hchild hbelow ih =>
    rintro ⟨⟩
    exact ih ((wellNamed_iff.mp hb).2 _ hchild).2 rfl

/-- In a well named tree the keys are listed in the order of the document. -/
theorem WellNamed.pairwise_keysBelow (h : WellNamed b) :
    (keysBelow [] b).Pairwise fun key key' => Before b (Key.parts key) (Key.parts key') := by
  -- The parts of a key are the segments that it joins.
  have hparts : ∀ entry ∈ entriesBelow [] b, Key.parts (Key.join entry.1) = entry.1 := by
    intro entry hentry
    obtain ⟨segments, htarget, hne, hnames, -⟩ := h.exists_walk hentry
    rw [List.nil_append] at htarget
    rw [htarget]
    exact Key.parts_join hne fun segment hsegment => (hnames segment hsegment).2.1
  rw [keysBelow_eq_map, List.pairwise_map]
  refine (pairwise_entriesBelow b).imp_of_mem ?_
  intro x y hx hy hbefore
  rw [hparts x hx, hparts y hy]
  exact hbefore

/-- In a well named tree no key is listed twice. -/
theorem WellNamed.nodup_keysBelow (h : WellNamed b) : (keysBelow [] b).Nodup := by
  refine h.pairwise_keysBelow.imp ?_
  intro key key' hbefore heq
  exact hbefore.ne h (congrArg Key.parts heq)

end Branch

/-! ### Counting -/

mutual

/-- As many keys are listed for a node as there are entries. -/
theorem Node.length_keysAt (path : List String) : (node : Node) →
    (node.keysAt path).length = node.entryCount
  | .leaf _ => rfl
  | .conditional _ => rfl
  | .branch children => by
    rw [Node.keysAt, Node.entryCount]
    exact Branch.length_keysBelow path children

/-- As many keys are listed for a group as there are entries. -/
theorem Branch.length_keysBelow (path : List String) : (b : List (String × Node)) →
    (Branch.keysBelow path b).length = Branch.entryCount b
  | [] => rfl
  | (segment, node) :: rest => by
    rw [Branch.keysBelow, Branch.entryCount, List.length_append, Node.length_keysAt,
      Branch.length_keysBelow path rest]

end

end Phrasebook

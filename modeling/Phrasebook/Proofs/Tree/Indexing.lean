import Phrasebook.Proofs.Table.Bindings
import Phrasebook.Proofs.Tree.Overlaying
import Phrasebook.Tree.Indexed

/-!
# Indexes in step with their children

An index is coherent with the children of its group if it holds the position of each segment and no
segment is repeated. Then the position that it gives is the one that a search finds
(`IndexedBranch.index_eq_position?`), so no position is out of range. Storing a child and laying
one group over another keep every index of a tree coherent, and do to the tree without its indexes
what `Branch.upsert` and `Branch.overlay` do (`IndexedBranch.Sound.upsert`,
`IndexedBranch.Sound.overlay`). A coherent index is determined by the children, so trees that are
the same without their indexes are equal (`IndexedBranch.Sound.ext`).
-/

namespace Phrasebook

/-! ### One group -/

/-- A segment that is not repeated has the position at which it stands. -/
theorem Branch.position?_eq_some_iff {b : Branch} {segment : String} {position : Nat}
    (h : b.segments.Nodup) :
    b.position? segment = some position ↔ b.segments[position]? = some segment := by
  rw [position?, List.findIdx?_eq_some_iff_getElem, segments, List.getElem?_map,
    Option.map_eq_some_iff]
  constructor
  · rintro ⟨hlt, hname, -⟩
    exact ⟨b[position], List.getElem?_eq_getElem hlt, beq_iff_eq.mp hname⟩
  · rintro ⟨child, hchild, rfl⟩
    obtain ⟨hlt, rfl⟩ := List.getElem?_eq_some_iff.mp hchild
    refine ⟨hlt, beq_self_eq_true _, ?_⟩
    -- An earlier child of this segment would repeat it.
    intro earlier hearlier hname
    have hbound : earlier < b.length := hearlier.trans hlt
    have hnames : b.segments[earlier]? = b.segments[position]? := by
      simpa [segments, hbound, hlt] using hname
    exact hearlier.ne ((List.getElem?_inj (by simpa [segments] using hbound) h).mp hnames)

namespace Indexed

variable {α : Type} {g : Indexed α} {segment : String} {position : Nat}

/-- Whether the index holds the position of each segment, and nothing else, and no segment is
repeated. -/
structure Coherent (g : Indexed α) : Prop where
  /-- No segment is repeated. -/
  nodup : g.segments.Nodup
  /-- The entries of the index are in order. -/
  ordered : g.index.Ordered
  /-- The index holds the position of each segment. -/
  index_iff : ∀ segment position,
    g.index.get? segment = some position ↔ g.segments[position]? = some segment

theorem coherent_empty : (empty : Indexed α).Coherent where
  nodup := List.nodup_nil
  ordered := Table.ordered_empty
  index_iff := by simp [empty, segments, Table.empty, Table.get?]

theorem childAt_eq_ok_iff {child : String × α} :
    g.childAt position = .ok child ↔ g.children[position]? = some child := by
  rw [childAt]
  cases g.children[position]? <;> simp

/-- At a position of the index stands a child with the segment. -/
theorem Coherent.exists_childAt (h : g.Coherent)
    (hposition : g.index.get? segment = some position) :
    ∃ value, g.childAt position = .ok (segment, value) := by
  have hsegment := (h.index_iff segment position).mp hposition
  rw [segments, List.getElem?_map, Option.map_eq_some_iff] at hsegment
  obtain ⟨⟨name, value⟩, hchild, rfl⟩ := hsegment
  exact ⟨value, childAt_eq_ok_iff.mpr hchild⟩

theorem Coherent.index_eq_none_iff (h : g.Coherent) :
    g.index.get? segment = none ↔ segment ∉ g.segments := by
  rw [Option.eq_none_iff_forall_ne_some, List.mem_iff_getElem?]
  simp [h.index_iff]

theorem Coherent.contains_iff (h : g.Coherent) :
    g.contains segment = true ↔ segment ∈ g.segments := by
  rw [contains, Table.contains, Option.isSome_iff_ne_none, ne_eq, h.index_eq_none_iff, not_not]

/-- The index is determined by the children. -/
theorem Coherent.ext {g' : Indexed α} (h : g.Coherent) (h' : g'.Coherent)
    (hchildren : g.children = g'.children) : g = g' := by
  have hsegments : g.segments = g'.segments := by rw [segments, segments, hchildren]
  have hindex : g.index = g'.index := by
    refine h.ordered.ext_get? h'.ordered fun segment => ?_
    refine Option.ext fun position => ?_
    rw [h.index_iff, h'.index_iff, hsegments]
  obtain ⟨children, index⟩ := g
  obtain ⟨children', index'⟩ := g'
  cases hchildren
  cases hindex
  rfl

/-- A value under a new segment goes to the end, and its position into the index. -/
theorem Coherent.append (h : g.Coherent) (hnew : segment ∉ g.segments) (value : α) :
    Coherent
      { children := g.children ++ [(segment, value)]
        index := g.index.insert segment g.children.length } := by
  have hlength : g.children.length = g.segments.length := by simp [segments]
  have hsegments : segments ⟨g.children ++ [(segment, value)],
      g.index.insert segment g.children.length⟩ = g.segments ++ [segment] := by simp [segments]
  refine ⟨?_, h.ordered.insert segment _, ?_⟩
  · rw [hsegments, ← List.concat_eq_append]
    exact List.Nodup.concat hnew h.nodup
  · intro other position
    rw [hsegments, Table.get?_insert, List.getElem?_append]
    by_cases hother : other = segment
    · -- Only the last position holds the new segment.
      have hold : g.segments[position]? ≠ some segment :=
        fun hmem => hnew (List.mem_of_getElem? hmem)
      rw [if_pos hother, hother]
      grind
    · -- Other segments keep their positions, which the list grows behind.
      rw [if_neg hother, h.index_iff]
      grind

/-- A value in the place of another one leaves the segments and the index as they are. -/
theorem Coherent.set (h : g.Coherent) (hposition : g.index.get? segment = some position)
    (value : α) : Coherent { g with children := g.children.set position (segment, value) } := by
  have hsegments : segments { g with children := g.children.set position (segment, value) } =
      g.segments := Branch.map_fst_set ((h.index_iff segment position).mp hposition) value
  exact ⟨hsegments ▸ h.nodup, h.ordered, hsegments ▸ h.index_iff⟩

/-- A value is stored without reading outside the list, and the index stays coherent. -/
theorem Coherent.upsert (h : g.Coherent) (segment : String) (value : α) :
    ∃ next, g.upsert segment value = .ok next ∧ next.Coherent ∧
      ∀ child ∈ next.children, child = (segment, value) ∨ child ∈ g.children := by
  rw [Indexed.upsert]
  cases hposition : g.index.get? segment with
  | none =>
    refine ⟨_, rfl, h.append (h.index_eq_none_iff.mp hposition) value, ?_⟩
    intro child hchild
    rcases List.mem_append.mp hchild with hold | hlast
    · exact Or.inr hold
    · exact Or.inl (List.mem_singleton.mp hlast)
  | some position =>
    obtain ⟨old, hold⟩ := h.exists_childAt hposition
    refine ⟨_, ?_, h.set hposition value, fun child hchild =>
      (List.mem_or_eq_of_mem_set hchild).symm⟩
    dsimp only
    rw [hold]
    rfl

/-- Every child is found under its segment. -/
theorem Coherent.get?_of_mem (h : g.Coherent) {value : α} (hchild : (segment, value) ∈ g.children) :
    g.get? segment = .ok (some value) := by
  obtain ⟨position, hposition⟩ := List.mem_iff_getElem?.mp hchild
  have hindex : g.index.get? segment = some position := by
    rw [h.index_iff, segments, List.getElem?_map, hposition]
    rfl
  rw [get?, hindex]
  dsimp only
  rw [childAt_eq_ok_iff.mpr hposition]
  rfl

end Indexed

/-! ### Groups without their indexes -/

/-- One group is in a tree with another as its root. -/
inductive IndexedBranch.Within : IndexedBranch → IndexedBranch → Prop where
  /-- The root. -/
  | root (g : IndexedBranch) : Within g g
  /-- A group below a child of the root. -/
  | step {g child group : IndexedBranch} {segment : String}
      (hchild : (segment, .branch child) ∈ g.children) (h : Within group child) : Within group g

/-- Whether the indexes of a group and of all groups below it are coherent. -/
def IndexedBranch.Sound (g : IndexedBranch) : Prop :=
  ∀ group : IndexedBranch, group.Within g → group.Coherent

/-- Whether all indexes from a node down are coherent. -/
def IndexedNode.Sound : IndexedNode → Prop
  | .branch g => IndexedBranch.Sound g
  | _ => True

namespace IndexedBranch

variable {g g' base above : IndexedBranch} {segment : String} {node : IndexedNode}

/-- A tree is sound if the index of its root is coherent and each child is sound. -/
theorem sound_iff : g.Sound ↔ g.Coherent ∧ ∀ child ∈ g.children, child.2.Sound := by
  constructor
  · intro h
    refine ⟨h g (.root g), ?_⟩
    rintro ⟨segment, node⟩ hchild
    cases node with
    | leaf template => trivial
    | conditional entry => trivial
    | branch child => exact fun group hgroup => h group (.step hchild hgroup)
  · rintro ⟨hroot, hchildren⟩ group hgroup
    -- A group of the tree is its root, or is in the tree of a child.
    cases hgroup with
    | root => exact hroot
    | step hchild hbelow => exact hchildren _ hchild group hbelow

theorem sound_empty : Sound Indexed.empty :=
  sound_iff.mpr ⟨Indexed.coherent_empty, by simp [Indexed.empty]⟩

theorem toChildren_eq_map (children : List (String × IndexedNode)) :
    toChildren children = children.map fun child => (child.1, child.2.toNode) := by
  induction children with
  | nil => rfl
  | cons child rest ih => rw [toChildren, ih, List.map_cons]

theorem toBranch_eq_map (g : IndexedBranch) :
    g.toBranch = g.children.map fun child => (child.1, child.2.toNode) := by
  rw [toBranch, toChildren_eq_map]

@[simp]
theorem segments_toBranch (g : IndexedBranch) : g.toBranch.segments = g.segments := by
  rw [toBranch_eq_map, Branch.segments, List.map_map]
  rfl

/-- The index gives the position that a search finds. -/
theorem index_eq_position? (h : g.Coherent) (segment : String) :
    g.index.get? segment = g.toBranch.position? segment := by
  refine Option.ext fun position => ?_
  have hnodup : g.toBranch.segments.Nodup := by
    rw [segments_toBranch]
    exact h.nodup
  rw [h.index_iff, Branch.position?_eq_some_iff hnodup, segments_toBranch]

/-- A segment is looked up without reading outside the list, and what a search finds is found. -/
theorem Sound.get? (h : g.Sound) (segment : String) :
    ∃ found, Indexed.get? g segment = .ok found ∧ (∀ node ∈ found, node.Sound) ∧
      found.map IndexedNode.toNode = g.toBranch.get? segment := by
  obtain ⟨hroot, hchildren⟩ := sound_iff.mp h
  rw [Indexed.get?, Branch.get?, ← index_eq_position? hroot]
  cases hposition : g.index.get? segment with
  | none => exact ⟨none, rfl, by simp, rfl⟩
  | some position =>
    obtain ⟨node, hchild⟩ := hroot.exists_childAt hposition
    have hat := Indexed.childAt_eq_ok_iff.mp hchild
    refine ⟨some node, ?_, ?_, ?_⟩
    · dsimp only
      rw [hchild]
      rfl
    · rintro _ ⟨⟩
      exact hchildren _ (List.mem_of_getElem? hat)
    · simp [toBranch_eq_map, hat]

/-- Storing a child does to the group without its index what it does where positions are searched
for. -/
theorem toBranch_of_upsert (h : g.Coherent) (hnext : Indexed.upsert g segment node = .ok g') :
    g'.toBranch = g.toBranch.upsert segment node.toNode := by
  rw [Indexed.upsert] at hnext
  rw [Branch.upsert, ← index_eq_position? h]
  cases hposition : g.index.get? segment with
  | none =>
    rw [hposition] at hnext
    cases hnext
    simp [toBranch_eq_map]
  | some position =>
    obtain ⟨old, hold⟩ := h.exists_childAt hposition
    rw [hposition] at hnext
    dsimp only at hnext
    rw [hold] at hnext
    cases hnext
    simp [toBranch_eq_map, List.map_set]

/-- A sound child is stored without reading outside the list, and all indexes stay coherent. -/
theorem Sound.upsert (h : g.Sound) (segment : String) (hnode : node.Sound) :
    ∃ next : IndexedBranch, Indexed.upsert g segment node = .ok next ∧ next.Sound ∧
      next.toBranch = g.toBranch.upsert segment node.toNode := by
  obtain ⟨hroot, hchildren⟩ := sound_iff.mp h
  obtain ⟨next, hnext, hcoherent, hmem⟩ := hroot.upsert segment node
  refine ⟨next, hnext, sound_iff.mpr ⟨hcoherent, ?_⟩, toBranch_of_upsert hroot hnext⟩
  intro child hchild
  rcases hmem child hchild with rfl | hold
  · exact hnode
  · exact hchildren child hold

end IndexedBranch

/-! ### Trees without their indexes -/

mutual

theorem IndexedNode.Sound.distinct : ∀ {node : IndexedNode}, node.Sound → node.toNode.Distinct
  | .leaf _, _ => trivial
  | .conditional _, _ => trivial
  | .branch ⟨_, _⟩, h => IndexedBranch.Sound.distinct h

/-- A tree with coherent indexes repeats no segment in a group. -/
theorem IndexedBranch.Sound.distinct :
    ∀ {g : IndexedBranch}, g.Sound → Branch.Distinct g.toBranch
  | ⟨children, index⟩, h => by
    obtain ⟨hroot, hchildren⟩ := IndexedBranch.sound_iff.mp h
    refine Branch.distinct_iff.mpr ⟨?_, IndexedBranch.distinct_toChildren hchildren⟩
    rw [IndexedBranch.segments_toBranch]
    exact hroot.nodup

theorem IndexedBranch.distinct_toChildren :
    ∀ {children : List (String × IndexedNode)}, (∀ child ∈ children, child.2.Sound) →
      ∀ child ∈ IndexedBranch.toChildren children, child.2.Distinct
  | [], _, _, hmem => nomatch hmem
  | (_, _) :: _, h, child, hmem => by
    obtain ⟨hfirst, hrest⟩ := List.forall_mem_cons.mp h
    rcases List.mem_cons.mp hmem with rfl | hlater
    · exact IndexedNode.Sound.distinct hfirst
    · exact IndexedBranch.distinct_toChildren hrest child hlater

end

mutual

/-- Nodes with coherent indexes are equal if they are without their indexes. -/
theorem IndexedNode.Sound.ext : ∀ {m n : IndexedNode}, m.Sound → n.Sound →
    m.toNode = n.toNode → m = n
  | .leaf _, .leaf _, _, _, h => by
    cases h
    rfl
  | .conditional _, .conditional _, _, _, h => by
    cases h
    rfl
  | .branch ⟨_, _⟩, .branch ⟨_, _⟩, hm, hn, h =>
    congrArg IndexedNode.branch (IndexedBranch.Sound.ext hm hn (Node.branch.inj h))
  | .leaf _, .conditional _, _, _, h => nomatch h
  | .leaf _, .branch ⟨_, _⟩, _, _, h => nomatch h
  | .conditional _, .leaf _, _, _, h => nomatch h
  | .conditional _, .branch ⟨_, _⟩, _, _, h => nomatch h
  | .branch ⟨_, _⟩, .leaf _, _, _, h => nomatch h
  | .branch ⟨_, _⟩, .conditional _, _, _, h => nomatch h

/-- Groups with coherent indexes are equal if they are without their indexes. -/
theorem IndexedBranch.Sound.ext : ∀ {g g' : IndexedBranch}, g.Sound → g'.Sound →
    g.toBranch = g'.toBranch → g = g'
  | ⟨_, _⟩, ⟨_, _⟩, hg, hg', h => by
    obtain ⟨hroot, hchildren⟩ := IndexedBranch.sound_iff.mp hg
    obtain ⟨hroot', hchildren'⟩ := IndexedBranch.sound_iff.mp hg'
    -- The children agree by recursion, and they determine the index.
    exact hroot.ext hroot' (IndexedBranch.ext_toChildren hchildren hchildren' h)

theorem IndexedBranch.ext_toChildren : ∀ {xs ys : List (String × IndexedNode)},
    (∀ child ∈ xs, child.2.Sound) → (∀ child ∈ ys, child.2.Sound) →
      IndexedBranch.toChildren xs = IndexedBranch.toChildren ys → xs = ys
  | [], [], _, _, _ => rfl
  | (s, m) :: xs, (t, n) :: ys, hxs, hys, h => by
    obtain ⟨hm, hxs⟩ := List.forall_mem_cons.mp hxs
    obtain ⟨hn, hys⟩ := List.forall_mem_cons.mp hys
    obtain ⟨hfirst, hrest⟩ := List.cons.inj h
    obtain ⟨hsegment, hnode⟩ := Prod.mk.inj hfirst
    have hchild : m = n := IndexedNode.Sound.ext hm hn hnode
    rw [hsegment, hchild, IndexedBranch.ext_toChildren hxs hys hrest]
  | [], _ :: _, _, _, h => nomatch h
  | _ :: _, [], _, _, h => nomatch h

end

/-! ### Overlaying -/

mutual

/-- One node is laid over another without reading outside a list, and all indexes stay coherent. -/
theorem IndexedNode.Sound.overlay {base : IndexedNode} (hbase : base.Sound) :
    ∀ {above : IndexedNode}, above.Sound →
      ∃ joined, base.overlay above = .ok joined ∧ joined.Sound ∧
        joined.toNode = base.toNode.overlay above.toNode
  | .leaf template, h => ⟨_, rfl, h, (Node.overlay_of_isEntry _ rfl).symm⟩
  | .conditional entry, h => ⟨_, rfl, h, (Node.overlay_of_isEntry _ rfl).symm⟩
  | .branch ⟨children, index⟩, h => by
    cases base with
    | leaf template | conditional entry =>
      exact ⟨_, rfl, h, (Node.overlay_branch_of_isEntry rfl _).symm⟩
    | branch below =>
      obtain ⟨joined, hjoined, hsound, htree⟩ := IndexedBranch.Sound.overlay hbase h
      refine ⟨.branch joined, ?_, hsound, ?_⟩
      · rw [IndexedNode.overlay, hjoined]
        rfl
      · rw [IndexedNode.toNode, htree, IndexedNode.toNode, IndexedNode.toNode,
          Node.overlay_branch_branch]

/-- One group is laid over another without reading outside a list, and all indexes stay coherent. -/
theorem IndexedBranch.Sound.overlay {base : IndexedBranch} (hbase : base.Sound) :
    ∀ {above : IndexedBranch}, above.Sound →
      ∃ joined : IndexedBranch, base.overlay above = .ok joined ∧ joined.Sound ∧
        joined.toBranch = base.toBranch.overlay above.toBranch
  -- The children of the group above are stored one by one; its own index plays no part.
  | ⟨_, _⟩, h => IndexedBranch.Sound.overlayChildren hbase (IndexedBranch.sound_iff.mp h).2

theorem IndexedBranch.Sound.overlayChildren {base : IndexedBranch} (hbase : base.Sound) :
    ∀ {children : List (String × IndexedNode)}, (∀ child ∈ children, child.2.Sound) →
      ∃ joined : IndexedBranch, base.overlayChildren children = .ok joined ∧ joined.Sound ∧
        joined.toBranch = base.toBranch.overlay (IndexedBranch.toChildren children)
  | [], _ => ⟨base, rfl, hbase, rfl⟩
  | (segment, node) :: rest, h => by
    obtain ⟨hnode, hrest⟩ := List.forall_mem_cons.mp h
    obtain ⟨found, hfound, hold, htree⟩ := hbase.get? segment
    -- The child is laid over an earlier one of its name, or it is new.
    obtain ⟨child, hchild, hsound, hchildTree⟩ : ∃ child,
        (found.elim (.ok node) fun old => old.overlay node) = Except.ok child ∧ child.Sound ∧
          child.toNode = node.toNode.laidOver (found.map IndexedNode.toNode) := by
      cases found with
      | none => exact ⟨node, rfl, hnode, rfl⟩
      | some old => exact IndexedNode.Sound.overlay (hold old rfl) hnode
    -- It takes its place, and the other children follow it into the group.
    obtain ⟨next, hnext, hnextSound, hnextTree⟩ := hbase.upsert segment hsound
    obtain ⟨joined, hjoined, hjoinedSound, hjoinedTree⟩ :=
      IndexedBranch.Sound.overlayChildren hnextSound hrest
    refine ⟨joined, ?_, hjoinedSound, ?_⟩
    · rw [IndexedBranch.overlayChildren, hfound]
      simp only [bind, Except.bind, hchild, hnext, hjoined]
    · rw [hjoinedTree, hnextTree, hchildTree, htree, IndexedBranch.toChildren, Branch.overlay]
      cases base.toBranch.get? segment <;> rfl

end

end Phrasebook

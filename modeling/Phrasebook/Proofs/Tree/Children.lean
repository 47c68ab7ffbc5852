import Phrasebook.Tree.Build

/-!
# Children of a group

Looking up, storing and overlaying in terms of the list of children. A group is well named if its
segments are distinct and each can be a segment of a key that has no meaning of its own, and the
same holds of every group below.

* `Branch.mem_of_get?` and `Branch.WellNamed.get?_eq_some`: what is found is a child, and in a well
  named group every child is found;
* `Branch.WellNamed.upsert` and `Branch.WellNamed.overlay`: storing and overlaying keep groups well
  named.
-/

namespace Phrasebook

/-- Whether a text can name a child: it is not empty, has no dot and does not begin with a dollar
sign. -/
def NamesChild (segment : String) : Prop :=
  segment ≠ "" ∧ '.' ∉ segment.toList ∧ segment.toList.head? ≠ some '$'

mutual

/-- Whether all groups from a node down are well named. -/
def Node.WellNamed : Node → Prop
  | .branch children => Branch.WellNamed children
  | _ => True

/-- Whether a group and all groups below it have distinct segments that name children. -/
def Branch.WellNamed : List (String × Node) → Prop
  | [] => True
  | (segment, node) :: rest =>
    NamesChild segment ∧ segment ∉ Branch.segments rest ∧ node.WellNamed ∧ Branch.WellNamed rest

end

namespace Branch

variable {b base above : Branch} {segment : String} {node : Node}

/-! ### Looking up -/

/-- The child under a segment is the first one in the list. -/
theorem get?_eq_lookup (b : Branch) (segment : String) :
    b.get? segment = b.lookup segment := by
  induction b with
  | nil => rfl
  | cons child b ih =>
    obtain ⟨name, node⟩ := child
    rw [get?, position?, List.findIdx?_cons, List.lookup_cons]
    by_cases hname : name = segment
    · simp [hname]
    · have hne : (segment == name) = false := beq_eq_false_iff_ne.mpr (Ne.symm hname)
      rw [hne, ← ih, get?, position?]
      cases hposition : b.findIdx? fun child => child.1 == segment <;> simp [hname]

/-- The first child hides later ones of its name and no others. -/
theorem get?_cons (name : String) (first : Node) (b : Branch) (segment : String) :
    get? ((name, first) :: b) segment = if segment = name then some first else b.get? segment := by
  rw [get?_eq_lookup, get?_eq_lookup, List.lookup_cons]
  by_cases hname : segment = name
  · simp [hname]
  · rw [if_neg hname, beq_eq_false_iff_ne.mpr hname]

/-- Nothing is found exactly where no child has the segment. -/
theorem get?_eq_none_iff : b.get? segment = none ↔ segment ∉ b.segments := by
  induction b with
  | nil => simp [get?_eq_lookup, segments]
  | cons child b ih =>
    obtain ⟨name, first⟩ := child
    rw [get?_cons]
    by_cases hname : segment = name
    · simp [hname, segments]
    · rw [if_neg hname, ih]
      simp [hname, segments]

/-- What is found is a child. -/
theorem mem_of_get? (h : b.get? segment = some node) :
    (segment, node) ∈ b := by
  rw [get?_eq_lookup] at h
  obtain ⟨before, after, hsplit, -⟩ := List.lookup_eq_some_iff.mp h
  rw [hsplit]
  simp

/-- A group is well named if its segments are distinct and each child is well named. -/
theorem wellNamed_iff :
    WellNamed b ↔
      b.segments.Nodup ∧ ∀ child ∈ b, NamesChild child.1 ∧ child.2.WellNamed := by
  induction b with
  | nil => simp [WellNamed, segments]
  | cons child b ih =>
    obtain ⟨segment, node⟩ := child
    rw [WellNamed, ih]
    simp only [segments, List.map_cons, List.nodup_cons, List.forall_mem_cons]
    constructor
    · rintro ⟨hname, hnew, hnode, hnodup, hchildren⟩
      exact ⟨⟨hnew, hnodup⟩, ⟨hname, hnode⟩, hchildren⟩
    · rintro ⟨⟨hnew, hnodup⟩, ⟨hname, hnode⟩, hchildren⟩
      exact ⟨hname, hnew, hnode, hnodup, hchildren⟩

/-- Where no segment is repeated, every child is found under its segment. -/
theorem get?_eq_some_of_mem (h : b.segments.Nodup) (hmem : (segment, node) ∈ b) :
    b.get? segment = some node := by
  induction b with
  | nil => cases hmem
  | cons child b ih =>
    obtain ⟨name, first⟩ := child
    obtain ⟨hnew, hrest⟩ := List.nodup_cons.mp h
    rw [get?_cons]
    -- A child further on is not hidden by this one, whose segment is another.
    rcases List.mem_cons.mp hmem with heq | hlater
    · cases heq
      exact if_pos rfl
    · have hne : segment ≠ name := by
        rintro rfl
        exact hnew (List.mem_map.mpr ⟨(segment, node), hlater, rfl⟩)
      rw [if_neg hne]
      exact ih hrest hlater

/-- In a well named group every child is found under its segment. -/
theorem WellNamed.get?_eq_some (h : WellNamed b) (hmem : (segment, node) ∈ b) :
    b.get? segment = some node :=
  get?_eq_some_of_mem (wellNamed_iff.mp h).1 hmem

/-! ### Storing -/

/-- After a child is stored, every child is that one or an earlier one. -/
theorem mem_upsert {child : String × Node} (h : child ∈ b.upsert segment node) :
    child = (segment, node) ∨ child ∈ b := by
  rw [upsert] at h
  split at h
  · exact (List.mem_or_eq_of_mem_set h).symm
  · rcases List.mem_append.mp h with h | h
    · exact Or.inr h
    · exact Or.inl (List.mem_singleton.mp h)

/-- A value in the place of one of the same name leaves the names as they are. -/
theorem map_fst_set {α : Type} {xs : List (String × α)} {i : Nat} {name : String}
    (h : (xs.map Prod.fst)[i]? = some name) (value : α) :
    (xs.set i (name, value)).map Prod.fst = xs.map Prod.fst := by
  obtain ⟨hi, hname⟩ := List.getElem?_eq_some_iff.mp h
  calc (xs.set i (name, value)).map Prod.fst
      = (xs.map Prod.fst).set i name := List.map_set
    _ = (xs.map Prod.fst).set i (xs.map Prod.fst)[i] := by rw [hname]
    _ = xs.map Prod.fst := List.set_getElem_self hi

/-- Storing a child keeps the segments, or adds its own at the end. -/
theorem segments_upsert (b : Branch) (segment : String) (node : Node) :
    (b.upsert segment node).segments =
      if segment ∈ b.segments then b.segments else b.segments ++ [segment] := by
  rw [upsert]
  cases hposition : b.position? segment with
  | none =>
    rw [if_neg (position?_eq_none_iff.mp hposition)]
    simp [segments]
  -- The child found under the segment is replaced by one of the same name.
  | some i =>
    have hmem : segment ∈ b.segments := by
      refine Decidable.byContradiction fun hnot => ?_
      rw [position?_eq_none_iff.mpr hnot] at hposition
      cases hposition
    obtain ⟨hi, hname, -⟩ := List.findIdx?_eq_some_iff_getElem.mp hposition
    rw [if_pos hmem]
    exact map_fst_set (by simpa [hi] using hname) node

/-- A child under a new segment is stored at the end. -/
theorem upsert_of_not_mem (h : segment ∉ b.segments) :
    b.upsert segment node = b ++ [(segment, node)] := by
  rw [upsert, position?_eq_none_iff.mpr h]

/-- Segments that are new to a group stay so when a child with another segment goes to its end. -/
theorem not_mem_segments_concat {rest : Branch} (hfirst : segment ∉ rest.segments)
    (hnew : ∀ s ∈ segments ((segment, node) :: rest), s ∉ b.segments) :
    ∀ s ∈ rest.segments, s ∉ segments (b ++ [(segment, node)]) := by
  intro s hs hmem
  rw [segments, List.map_append] at hmem
  rcases List.mem_append.mp hmem with hold | hlast
  · exact hnew s (List.mem_cons_of_mem segment hs) hold
  · rw [List.mem_singleton.mp hlast] at hs
    exact hfirst hs

/-- Storing a child repeats no segment. -/
theorem nodup_segments_upsert (h : b.segments.Nodup) (segment : String) (node : Node) :
    (b.upsert segment node).segments.Nodup := by
  rw [segments_upsert]
  split
  · exact h
  · rename_i hnew
    exact List.nodup_append.mpr ⟨h, by simp, by
      rintro s hs t ht rfl
      exact hnew (List.mem_singleton.mp ht ▸ hs)⟩

/-- Storing a well named child under a name for children keeps a group well named. -/
theorem WellNamed.upsert (h : WellNamed b) (hname : NamesChild segment) (hnode : node.WellNamed) :
    WellNamed (b.upsert segment node) := by
  obtain ⟨hnodup, hchildren⟩ := wellNamed_iff.mp h
  refine wellNamed_iff.mpr ⟨nodup_segments_upsert hnodup segment node, ?_⟩
  intro child hchild
  rcases mem_upsert hchild with rfl | hmem
  · exact ⟨hname, hnode⟩
  · exact hchildren child hmem

end Branch

/-! ### Overlaying -/

mutual

/-- Laying a well named node over a well named one makes a well named node. -/
theorem Node.WellNamed.overlay {base : Node} (hbase : base.WellNamed) :
    ∀ {above : Node}, above.WellNamed → (base.overlay above).WellNamed
  | .leaf template, h => by
    rw [Node.overlay]
    · exact h
    · simp
  | .conditional entry, h => by
    rw [Node.overlay]
    · exact h
    · simp
  | .branch above, h => by
    rw [Node.overlay.eq_def]
    dsimp only
    split
    · exact Branch.WellNamed.overlay hbase h
    · exact h

/-- Laying a well named group over a well named one makes a well named group. -/
theorem Branch.WellNamed.overlay {base : Branch} (hbase : Branch.WellNamed base) :
    ∀ {above : Branch}, Branch.WellNamed above → Branch.WellNamed (base.overlay above)
  | [], _ => by
    rw [Branch.overlay]
    exact hbase
  | (segment, node) :: rest, h => by
    obtain ⟨hname, -, hnode, hrest⟩ := h
    rw [Branch.overlay]
    refine Branch.WellNamed.overlay (Branch.WellNamed.upsert hbase hname ?_) hrest
    -- The child is laid over an earlier one of its name, or it is new.
    split
    · rename_i old hold
      have hchild := (Branch.wellNamed_iff.mp hbase).2 _ (Branch.mem_of_get? hold)
      exact Node.WellNamed.overlay hchild.2 hnode
    · exact hnode

end

/-! ### Building -/

namespace Tree

variable {built b : Branch} {segment : String} {path : List String} {node : Node}

/-- A key has no problem exactly if it names a child and is new. -/
theorem segmentProblem?_eq_none_iff :
    segmentProblem? built segment = none ↔ NamesChild segment ∧ segment ∉ built.segments := by
  have hnew : built.contains segment = false ↔ segment ∉ built.segments := by
    rw [Branch.contains, ← Branch.position?_eq_none_iff, Option.isSome_eq_false_iff,
      Option.isNone_iff_eq_none]
  simp only [segmentProblem?]
  constructor
  · intro h
    -- Each of the five problems is tried in turn, and none was found.
    split at h
    · cases h
    split at h
    · cases h
    split at h
    · cases h
    split at h
    · cases h
    split at h
    · cases h
    · rename_i hempty hdot _ hdollar hcontains
      exact ⟨⟨by simpa using hempty, by simpa using hdot, hdollar⟩,
        hnew.mp (Bool.not_eq_true _ ▸ hcontains)⟩
  · rintro ⟨⟨hempty, hdot, hdollar⟩, hunused⟩
    -- The key of the default begins with a dollar sign, so it is not the segment.
    have hdefault : segment ≠ defaultKey := by
      rintro rfl
      exact hdollar rfl
    simp [hempty, hdot, hdefault, hdollar, hnew.mpr hunused]

/-- A mapping that is built as a node and holds arms is read as a conditional. -/
theorem exists_conditional_of_nodeOf {entries : List (String × Nested)}
    (h : nodeOf path (.mapping entries) = .ok node) (hkind : isConditional entries = true) :
    ∃ c, node = .conditional c ∧ conditionalOf entries = .ok c := by
  rw [nodeOf, if_pos hkind] at h
  cases hread : conditionalOf entries with
  | error problem =>
    rw [hread] at h
    cases h
  | ok c =>
    rw [hread] at h
    exact ⟨c, (Except.ok.inj h).symm, rfl⟩

/-- Any other mapping that is built as a node is read as a group. -/
theorem exists_branch_of_nodeOf {entries : List (String × Nested)}
    (h : nodeOf path (.mapping entries) = .ok node) (hkind : isConditional entries = false) :
    ∃ b, node = .branch b ∧ childrenOf path [] entries = .ok b := by
  rw [nodeOf, hkind] at h
  cases hread : childrenOf path [] entries with
  | error fault =>
    rw [hread] at h
    cases h
  | ok b =>
    rw [hread] at h
    exact ⟨b, (Except.ok.inj h).symm, rfl⟩

/-- The first child of a group names a new child, is built, and is stored behind those before it. -/
theorem exists_child_of_childrenOf_cons {value : Nested} {rest : List (String × Nested)}
    (h : childrenOf path built ((segment, value) :: rest) = .ok b) :
    NamesChild segment ∧ segment ∉ built.segments ∧
      ∃ node, nodeOf (path ++ [segment]) value = .ok node ∧
        childrenOf path (built ++ [(segment, node)]) rest = .ok b := by
  rw [childrenOf] at h
  split at h
  · cases h
  rename_i hproblem
  obtain ⟨hname, hnew⟩ := segmentProblem?_eq_none_iff.mp hproblem
  split at h
  · cases h
  rename_i node hnode
  rw [Branch.upsert_of_not_mem hnew] at h
  exact ⟨hname, hnew, node, hnode, h⟩

/-- A tree is built as the group of its root. -/
theorem nodeOf_of_build {value : Nested} (h : build value = .ok b) :
    nodeOf [] value = .ok (.branch b) := by
  rw [build.eq_def] at h
  split at h
  · split at h
    · cases h
    · rename_i hkind
      rw [nodeOf, if_neg hkind, h]
      rfl
  · cases h

mutual

/-- A node that is built is well named. -/
theorem wellNamed_of_nodeOf : ∀ {value : Nested} {path : List String} {node : Node},
    nodeOf path value = .ok node → node.WellNamed
  | .string _, _, _, h => by
    cases h
    trivial
  | .mapping entries, path, node, h => by
    cases hkind : isConditional entries with
    | true =>
      obtain ⟨c, rfl, -⟩ := exists_conditional_of_nodeOf h hkind
      trivial
    | false =>
      obtain ⟨children, rfl, hchildren⟩ := exists_branch_of_nodeOf h hkind
      exact wellNamed_of_childrenOf hchildren trivial
  | .null, _, _, h => by cases h
  | .boolean _, _, _, h => by cases h
  | .integer _, _, _, h => by cases h
  | .float _, _, _, h => by cases h
  | .sequence _, _, _, h => by cases h

/-- Building children keeps a group well named. -/
theorem wellNamed_of_childrenOf : ∀ {entries : List (String × Nested)} {path : List String}
    {built b : Branch}, childrenOf path built entries = .ok b → Branch.WellNamed built →
      Branch.WellNamed b
  | [], _, _, _, h, hbuilt => by
    cases h
    exact hbuilt
  | (segment, value) :: rest, path, built, b, h, hbuilt => by
    obtain ⟨hname, hnew, node, hnode, hrest⟩ := exists_child_of_childrenOf_cons h
    rw [← Branch.upsert_of_not_mem hnew] at hrest
    exact wellNamed_of_childrenOf hrest (hbuilt.upsert hname (wellNamed_of_nodeOf hnode))

end

/-- A tree that is built is well named. -/
theorem wellNamed_of_build {value : Nested} (h : build value = .ok b) :
    Branch.WellNamed b :=
  wellNamed_of_nodeOf (nodeOf_of_build h)

end Tree

/-- A tree that comes from nested values: built from one, or laid over another such tree. -/
inductive Branch.Built : Branch → Prop where
  /-- A tree built from a nested value. -/
  | build {value : Nested} {root : Branch} (h : Tree.build value = .ok root) : Built root
  /-- A tree laid over another. -/
  | overlay {base above : Branch} (hbase : Built base) (habove : Built above) :
      Built (base.overlay above)

/-- Trees that come from nested values are well named. -/
theorem Branch.Built.wellNamed {b : Branch} (h : b.Built) :
    Branch.WellNamed b := by
  induction h with
  | build h => exact Tree.wellNamed_of_build h
  | overlay _ _ hbase habove => exact hbase.overlay habove

end Phrasebook

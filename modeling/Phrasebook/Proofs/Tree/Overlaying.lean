import Phrasebook.Proofs.Tree.Listing

/-!
# One tree laid over another

What a tree that is laid over another has at a path follows from what the two have there and on the
way. `Node.at?` is the node at a path. Where the tree above has a node, that one is found, joined
with the one below if both are groups (`Node.at?_overlay_of_eq_some`); where it has none, the tree
below shows, unless an entry of the tree above is in the way (`Node.at?_overlay_of_leavesOpen`,
`Node.at?_overlay_of_entry`).

* `Branch.find_overlay_iff`: which keys are found in the joined tree, and what is found;
* `Node.segments_overlay`: the children of every group of the joined tree, in order.

Only the groups of the tree above need distinct segments.
-/

namespace Phrasebook

open Phrasebook.Tree

/-! ### Paths -/

/-- The node that a path leads to from another node. -/
def Node.at? : Node → List String → Option Node
  | node, [] => some node
  | .branch children, segment :: rest => (Branch.get? children segment).bind (·.at? rest)
  | _, _ :: _ => none

/-- The segments of the children of a node; none for an entry. -/
def Node.segments : Node → List String
  | .branch children => Branch.segments children
  | _ => []

/-- The segments of the children of the node at a path; none if there is no node. -/
def Node.segmentsAt (node : Node) (path : List String) : List String :=
  (node.at? path).elim [] Node.segments

/-- A node laid over another one, if there is one. -/
def Node.laidOver (above : Node) : Option Node → Node
  | some base => base.overlay above
  | none => above

mutual

/-- Whether the segments of every group from a node down are distinct. -/
def Node.Distinct : Node → Prop
  | .branch children => Branch.Distinct children
  | _ => True

/-- Whether the segments of a group and of all groups below it are distinct. -/
def Branch.Distinct : List (String × Node) → Prop
  | [] => True
  | (segment, node) :: rest =>
    segment ∉ Branch.segments rest ∧ node.Distinct ∧ Branch.Distinct rest

end

/-- Whether a node that is laid over another shows what lies below at a path: it has no node there,
and no entry on the way. -/
def Node.LeavesOpen (above : Node) (path : List String) : Prop :=
  above.at? path = none ∧
    ∀ way node, way <+: path → above.at? way = some node → node.isEntry = false

namespace Branch

variable {b base above children : Branch} {segment other : String} {node : Node}
  {key locale : String}

theorem distinct_iff :
    Distinct b ↔ b.segments.Nodup ∧ ∀ child ∈ b, child.2.Distinct := by
  induction b with
  | nil => simp [Distinct, segments]
  | cons child b ih =>
    obtain ⟨segment, node⟩ := child
    rw [Distinct, ih]
    simp only [segments, List.map_cons, List.nodup_cons, List.forall_mem_cons]
    constructor
    · rintro ⟨hnew, hnode, hnodup, hchildren⟩
      exact ⟨⟨hnew, hnodup⟩, hnode, hchildren⟩
    · rintro ⟨⟨hnew, hnodup⟩, hnode, hchildren⟩
      exact ⟨hnew, hnode, hnodup, hchildren⟩

end Branch

mutual

theorem Node.WellNamed.distinct : ∀ {node : Node}, node.WellNamed → node.Distinct
  | .leaf _, _ => trivial
  | .conditional _, _ => trivial
  | .branch _, h => Branch.WellNamed.distinct h

theorem Branch.WellNamed.distinct : ∀ {b : List (String × Node)}, Branch.WellNamed b →
    Branch.Distinct b
  | [], _ => trivial
  | _ :: _, ⟨_, hnew, hnode, hrest⟩ => ⟨hnew, hnode.distinct, Branch.WellNamed.distinct hrest⟩

end

namespace Branch

variable {b base above children : Branch} {segment other : String} {node : Node}
  {key locale : String}

/-! ### Children -/

/-- Storing a child passes by the children of other names. -/
theorem upsert_cons (name : String) (first : Node) (b : Branch) (segment : String) (node : Node) :
    upsert ((name, first) :: b) segment node =
      if name = segment then (segment, node) :: b else (name, first) :: upsert b segment node := by
  unfold upsert position?
  rw [List.findIdx?_cons]
  by_cases hname : name = segment
  · simp [hname]
  · cases b.findIdx? fun child => child.1 == segment <;> simp [hname]

/-- Storing a child changes what is found under its segment and nothing else. -/
theorem get?_upsert (b : Branch) (segment other : String) (node : Node) :
    (b.upsert segment node).get? other = if other = segment then some node else b.get? other := by
  induction b with
  | nil => exact get?_cons segment node [] other
  | cons child b ih =>
    obtain ⟨name, first⟩ := child
    rw [upsert_cons, get?_cons]
    by_cases hname : name = segment
    · rw [if_pos hname, get?_cons]
      by_cases hother : other = segment
      · rw [if_pos hother, if_pos hother]
      · rw [if_neg hother, if_neg hother, if_neg (hname ▸ hother)]
    · rw [if_neg hname, get?_cons, ih]
      by_cases hother : other = name
      · rw [if_pos hother, if_neg (hother ▸ hname), if_pos hother]
      · rw [if_neg hother, if_neg hother]

/-- A child of the joined group is that of the group above, laid over the one below of its name, or
it is only below. -/
theorem get?_overlay (base : Branch) (h : above.segments.Nodup) (segment : String) :
    (base.overlay above).get? segment =
      match above.get? segment with
      | some new => some (new.laidOver (base.get? segment))
      | none => base.get? segment := by
  induction above generalizing base with
  | nil => rfl
  | cons child above ih =>
    obtain ⟨name, node⟩ := child
    obtain ⟨hnew, hnodup⟩ := List.nodup_cons.mp h
    rw [overlay, ih _ hnodup, get?_upsert]
    rw [get?_cons]
    by_cases hname : segment = name
    · subst hname
      -- No later child has this segment, so what was stored under it stays.
      have hlater : Branch.get? above segment = none := get?_eq_none_iff.mpr hnew
      rw [hlater, if_pos rfl, if_pos rfl]
      cases base.get? segment <;> rfl
    · rw [if_neg hname, if_neg hname]

/-- The children of the joined group are those of the group below, then those that only the group
above has. -/
theorem segments_overlay (base : Branch) (h : above.segments.Nodup) :
    (base.overlay above).segments =
      base.segments ++ above.segments.filter (· ∉ base.segments) := by
  induction above generalizing base with
  | nil => simp [overlay, segments]
  | cons child above ih =>
    obtain ⟨name, node⟩ := child
    obtain ⟨hnew, hnodup⟩ := List.nodup_cons.mp h
    have hsegments : segments ((name, node) :: above) = name :: segments above := rfl
    rw [overlay, ih _ hnodup, segments_upsert, hsegments]
    by_cases hmem : name ∈ base.segments
    · rw [if_pos hmem, List.filter_cons_of_neg (by simpa using hmem)]
    · rw [if_neg hmem, List.filter_cons_of_pos (by simpa using hmem), List.append_assoc,
        List.singleton_append]
      -- The segments that follow differ from this one.
      have hrest : (segments above).filter (· ∉ base.segments ++ [name]) =
          (segments above).filter (· ∉ base.segments) := by
        refine List.filter_congr ?_
        intro s hs
        have hne : s ≠ name := by
          rintro rfl
          exact hnew hs
        simp [hne]
      rw [hrest]

end Branch

/-! ### Nodes -/

namespace Node

variable {base above node new : Node} {path way : List String}

theorem at?_branch_cons (children : Branch) (segment : String) (rest : List String) :
    (branch children).at? (segment :: rest) = (children.get? segment).bind (·.at? rest) := by
  rw [at?]

/-- A path leads on from where its first part leads. -/
theorem at?_append (node : Node) (way rest : List String) :
    node.at? (way ++ rest) = (node.at? way).bind (·.at? rest) := by
  induction way generalizing node with
  | nil => rfl
  | cons segment way ih =>
    cases node with
    | leaf template => rfl
    | conditional entry => rfl
    | branch children =>
      rw [List.cons_append, at?_branch_cons, at?_branch_cons, Option.bind_assoc]
      exact Option.bind_congr fun child _ => ih child

theorem exists_branch_of_isEntry_eq_false (h : node.isEntry = false) :
    ∃ children, node = .branch children := by
  cases node with
  | branch children => exact ⟨children, rfl⟩
  | leaf template => cases h
  | conditional entry => cases h

/-- Nothing lies below an entry. -/
theorem at?_cons_of_isEntry (h : node.isEntry = true) (segment : String) (rest : List String) :
    node.at? (segment :: rest) = none := by
  cases node with
  | branch children => cases h
  | leaf template => rfl
  | conditional entry => rfl

theorem at?_eq_none_of_isEntry (hway : way <+: path) (hne : way ≠ path)
    (hnode : base.at? way = some node) (hentry : node.isEntry = true) : base.at? path = none := by
  obtain ⟨rest, rfl⟩ := hway
  rw [at?_append, hnode]
  cases rest with
  | nil => exact absurd (List.append_nil way).symm hne
  | cons segment rest => exact at?_cons_of_isEntry hentry segment rest

theorem Distinct.at? (h : base.Distinct) (hnode : base.at? path = some node) : node.Distinct := by
  induction path generalizing base with
  | nil =>
    cases hnode
    exact h
  | cons segment rest ih =>
    cases base with
    | leaf template => cases hnode
    | conditional entry => cases hnode
    | branch children =>
      rw [at?_branch_cons] at hnode
      obtain ⟨child, hchild, hbelow⟩ := Option.bind_eq_some_iff.mp hnode
      exact ih ((Branch.distinct_iff.mp h).2 _ (Branch.mem_of_get? hchild)) hbelow

/-- An entry hides what it is laid over. -/
theorem overlay_of_isEntry (base : Node) (h : above.isEntry = true) :
    base.overlay above = above := by
  cases above with
  | branch children => cases h
  | leaf template => simp [overlay]
  | conditional entry => simp [overlay]

/-- A group hides an entry that it is laid over. -/
theorem overlay_branch_of_isEntry (h : base.isEntry = true) (children : Branch) :
    base.overlay (.branch children) = .branch children := by
  cases base with
  | branch below => cases h
  | leaf template => simp [overlay]
  | conditional entry => simp [overlay]

theorem overlay_branch_branch (below above : Branch) :
    (branch below).overlay (.branch above) = .branch (below.overlay above) := by
  rw [overlay]

theorem laidOver_of_isEntry (h : new.isEntry = true) (old : Option Node) :
    new.laidOver old = new := by
  cases old with
  | none => rfl
  | some base => exact overlay_of_isEntry base h

theorem isEntry_laidOver (new : Node) (old : Option Node) :
    (new.laidOver old).isEntry = new.isEntry := by
  cases hentry : new.isEntry with
  | true => rw [laidOver_of_isEntry hentry, hentry]
  | false =>
    obtain ⟨children, rfl⟩ := exists_branch_of_isEntry_eq_false hentry
    cases old with
    | none => rfl
    | some base => cases base <;> simp [laidOver, overlay, isEntry]

/-- The children of a group that is laid over a node are those of the node, then its other ones. -/
theorem segments_laidOver {above : Branch} (h : above.segments.Nodup) (old : Option Node) :
    ((branch above).laidOver old).segments =
      old.elim [] segments ++ above.segments.filter (· ∉ old.elim [] segments) := by
  have hall : above.segments.filter (· ∉ ([] : List String)) = above.segments := by simp
  cases old with
  | none => exact hall.symm
  | some base =>
    cases base with
    | leaf template | conditional entry =>
      rw [laidOver, overlay_branch_of_isEntry rfl]
      exact hall.symm
    | branch below =>
      rw [laidOver, overlay_branch_branch]
      exact Branch.segments_overlay below h

/-- Where the tree above has a node, it is found, laid over the node below if there is one. -/
theorem at?_overlay_of_eq_some (base : Node) (h : above.Distinct)
    (hnew : above.at? path = some new) :
    (base.overlay above).at? path = some (new.laidOver (base.at? path)) := by
  induction path generalizing base above with
  | nil =>
    cases hnew
    rfl
  | cons segment rest ih =>
    cases above with
    | leaf template => cases hnew
    | conditional entry => cases hnew
    | branch children =>
      obtain ⟨hnodup, hchildren⟩ := Branch.distinct_iff.mp h
      have hgroup := hnew
      rw [at?_branch_cons] at hnew
      obtain ⟨child, hchild, hbelow⟩ := Option.bind_eq_some_iff.mp hnew
      have hdistinct : child.Distinct := hchildren _ (Branch.mem_of_get? hchild)
      cases hentry : base.isEntry with
      | true =>
        rw [overlay_branch_of_isEntry hentry, hgroup, at?_cons_of_isEntry hentry]
        rfl
      | false =>
        obtain ⟨below, rfl⟩ := exists_branch_of_isEntry_eq_false hentry
        rw [overlay_branch_branch, at?_branch_cons, at?_branch_cons,
          Branch.get?_overlay below hnodup, hchild]
        -- The child is laid over the one below of its name, if there is one.
        cases hold : Branch.get? below segment with
        | none => exact hbelow
        | some old => exact ih old hdistinct hbelow

/-- Where the tree above has neither a node nor an entry on the way, the tree below shows. -/
theorem at?_overlay_of_leavesOpen (base : Node) (h : above.Distinct)
    (hopen : above.LeavesOpen path) :
    (base.overlay above).at? path = base.at? path := by
  induction path generalizing base above with
  | nil => cases hopen.1
  | cons segment rest ih =>
    obtain ⟨hnone, hway⟩ := hopen
    cases above with
    | leaf template => cases hway [] _ List.nil_prefix rfl
    | conditional entry => cases hway [] _ List.nil_prefix rfl
    | branch children =>
      obtain ⟨hnodup, hchildren⟩ := Branch.distinct_iff.mp h
      cases hentry : base.isEntry with
      | true => rw [overlay_branch_of_isEntry hentry, hnone, at?_cons_of_isEntry hentry]
      | false =>
        obtain ⟨below, rfl⟩ := exists_branch_of_isEntry_eq_false hentry
        rw [at?_branch_cons] at hnone
        rw [overlay_branch_branch, at?_branch_cons, at?_branch_cons,
          Branch.get?_overlay below hnodup]
        cases hchild : Branch.get? children segment with
        | none => rfl
        | some child =>
          rw [hchild] at hnone
          have hdistinct : child.Distinct := hchildren _ (Branch.mem_of_get? hchild)
          -- A way below the child is a way below the group, by the name of the child.
          have hbelow : child.LeavesOpen rest := by
            refine ⟨hnone, ?_⟩
            intro way node hprefix hnode
            refine hway (segment :: way) node (List.cons_prefix_cons.mpr ⟨rfl, hprefix⟩) ?_
            rw [at?_branch_cons, hchild]
            exact hnode
          cases Branch.get? below segment with
          | none => exact hnone
          | some old => exact ih old hdistinct hbelow

/-- Nothing is found below an entry of the tree above. -/
theorem at?_overlay_of_entry (base : Node) (h : above.Distinct) (hway : way <+: path)
    (hne : way ≠ path) (hnode : above.at? way = some node) (hentry : node.isEntry = true) :
    (base.overlay above).at? path = none := by
  have hfound := at?_overlay_of_eq_some base h hnode
  rw [laidOver_of_isEntry hentry] at hfound
  exact at?_eq_none_of_isEntry hway hne hfound hentry

/-- Where the joined tree has a node and the tree above has none, the tree above leaves the path
open. -/
theorem leavesOpen_of_at?_overlay (h : above.Distinct)
    (hnode : (base.overlay above).at? path = some node) (hnone : above.at? path = none) :
    above.LeavesOpen path := by
  refine ⟨hnone, ?_⟩
  intro way found hway hfound
  cases hentry : found.isEntry with
  | false => rfl
  | true =>
    have hne : way ≠ path := by
      rintro rfl
      rw [hnone] at hfound
      cases hfound
    rw [at?_overlay_of_entry base h hway hne hfound hentry] at hnode
    cases hnode

/-- The children of every group of the joined tree are those of the tree below, in its order, then
those that only the tree above has, in its order. -/
theorem segments_overlay {children : Branch} (h : above.Distinct)
    (hgroup : (base.overlay above).at? path = some (.branch children)) :
    children.segments =
      base.segmentsAt path ++ (above.segmentsAt path).filter (· ∉ base.segmentsAt path) := by
  unfold segmentsAt
  cases hnew : above.at? path with
  | none =>
    -- Only the tree below has children here.
    rw [at?_overlay_of_leavesOpen base h (leavesOpen_of_at?_overlay h hgroup hnew)] at hgroup
    simp [hgroup, segments]
  | some new =>
    rw [at?_overlay_of_eq_some base h hnew] at hgroup
    have hjoined := Option.some.inj hgroup
    have hentry : new.isEntry = false := by
      rw [← isEntry_laidOver new (base.at? path), hjoined]
      rfl
    obtain ⟨above, rfl⟩ := exists_branch_of_isEntry_eq_false hentry
    have hnodup := (Branch.distinct_iff.mp (h.at? hnew)).1
    have hsegments := segments_laidOver hnodup (base.at? path)
    rw [hjoined] at hsegments
    exact hsegments

end Node

/-! ### Keys -/

namespace Branch

variable {b base above : Branch} {segments : List String} {node : Node} {key locale : String}

/-- A walk ends well where the segments lead to an entry. -/
theorem walk_eq_ok_iff (way : List String) :
    Tree.walk way b segments = .ok node ↔
      (Node.branch b).at? segments = some node ∧ node.isEntry = true := by
  induction segments generalizing way b with
  | nil =>
    constructor
    · intro h
      cases h
    · rintro ⟨hnode, hentry⟩
      cases hnode
      cases hentry
  | cons segment rest ih =>
    rw [Node.at?_branch_cons]
    constructor
    · intro h
      rcases walk_cons h with ⟨rfl, hchild, hentry⟩ | ⟨children, hchild, hwalk⟩
      · exact ⟨by rw [hchild]; rfl, hentry⟩
      · rw [hchild]
        exact (ih _).mp hwalk
    · rintro ⟨hnode, hentry⟩
      obtain ⟨child, hchild, hbelow⟩ := Option.bind_eq_some_iff.mp hnode
      rw [Tree.walk.eq_def]
      dsimp only
      rw [hchild]
      cases child with
      | branch children =>
        cases rest with
        | nil =>
          cases hbelow
          cases hentry
        | cons next more => exact (ih _).mpr ⟨hbelow, hentry⟩
      | leaf template | conditional entry =>
        cases rest with
        | nil =>
          cases hbelow
          rfl
        | cons next more => cases hbelow

/-- A key is found where its parts lead to an entry. -/
theorem find_eq_ok_iff_at? :
    Tree.find b key locale = .ok node ↔
      Key.split key = .ok (Key.parts key) ∧
        (Node.branch b).at? (Key.parts key) = some node ∧ node.isEntry = true := by
  rw [find_eq_ok_iff_walk]
  constructor
  · rintro ⟨segments, hsplit, hwalk⟩
    have hparts : Key.parts key = segments := by
      obtain ⟨hne, hsegments, hjoin⟩ := Key.split_eq_ok_iff.mp hsplit
      rw [← hjoin, Key.parts_join hne fun segment hsegment => (hsegments segment hsegment).2]
    rw [hparts]
    exact ⟨hsplit, (walk_eq_ok_iff _).mp hwalk⟩
  · rintro ⟨hsplit, hnode⟩
    exact ⟨_, hsplit, (walk_eq_ok_iff _).mpr hnode⟩

/-- Whether a key leads to an entry of a tree that is laid over another, or to one of the tree below
that the tree above leaves open. -/
def Prevails (base above : Branch) (key locale : String) (node : Node) : Prop :=
  Tree.find above key locale = .ok node ∨
    Tree.find base key locale = .ok node ∧ (Node.branch above).LeavesOpen (Key.parts key)

/-- A key is found in the joined tree as the tree above has it, or as the tree below has it where
the tree above leaves it open. -/
theorem find_overlay_iff (base : Branch) (h : Distinct above) :
    Tree.find (base.overlay above) key locale = .ok node ↔
      Prevails base above key locale node := by
  have hjoined : Node.branch (base.overlay above) = (Node.branch base).overlay (.branch above) :=
    (Node.overlay_branch_branch base above).symm
  have habove : (Node.branch above).Distinct := h
  unfold Prevails
  simp only [find_eq_ok_iff_at?, hjoined]
  constructor
  · rintro ⟨hsplit, hnode, hentry⟩
    cases hnew : (Node.branch above).at? (Key.parts key) with
    | none =>
      have hopen := Node.leavesOpen_of_at?_overlay habove hnode hnew
      rw [Node.at?_overlay_of_leavesOpen _ habove hopen] at hnode
      exact Or.inr ⟨⟨hsplit, hnode, hentry⟩, hopen⟩
    | some new =>
      refine Or.inl ⟨hsplit, ?_, hentry⟩
      rw [Node.at?_overlay_of_eq_some _ habove hnew] at hnode
      have hshown := Option.some.inj hnode
      -- What is found is an entry, so the tree above has it.
      have hnewEntry : new.isEntry = true := by
        rw [← Node.isEntry_laidOver new, hshown, hentry]
      rw [Node.laidOver_of_isEntry hnewEntry] at hshown
      rw [hshown]
  · rintro (⟨hsplit, hnode, hentry⟩ | ⟨⟨hsplit, hnode, hentry⟩, hopen⟩)
    · refine ⟨hsplit, ?_, hentry⟩
      rw [Node.at?_overlay_of_eq_some _ habove hnode, Node.laidOver_of_isEntry hentry]
    · refine ⟨hsplit, ?_, hentry⟩
      rw [Node.at?_overlay_of_leavesOpen _ habove hopen]
      exact hnode

end Branch

end Phrasebook

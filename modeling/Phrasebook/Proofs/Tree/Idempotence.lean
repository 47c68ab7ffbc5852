import Phrasebook.Proofs.Tree.Recipes

/-!
# Laying a tree over another once more

A tree that was laid over another finds itself everywhere when it is laid over the result: each of
its groups is joined with a group that has all its children, and each of its entries replaces
itself. So the second time changes nothing, neither a node nor the order of the children
(`Branch.overlay_overlay`), and a tree laid over itself is the same tree (`Branch.overlay_self`).
The group without children is neutral on both sides.

Only the tree above needs distinct segments. What holds of trees without indexes is carried over to
those with indexes by `IndexedBranch.Sound.overlay_eq_ok`.
-/

namespace Phrasebook

namespace Branch

variable {b base above built : Branch} {segment : String} {node : Node}

/-- Storing the child that is there changes nothing. -/
theorem upsert_of_get? (h : b.get? segment = some node) : b.upsert segment node = b := by
  induction b with
  | nil => cases h
  | cons child b ih =>
    obtain ⟨name, first⟩ := child
    rw [get?_cons] at h
    rw [upsert_cons]
    by_cases hname : segment = name
    · rw [if_pos hname] at h
      cases h
      rw [if_pos hname.symm, hname]
    · rw [if_neg hname] at h
      rw [if_neg (Ne.symm hname), ih h]

/-- A group in which every child finds a node that it does not change leaves the group below as it
is. -/
theorem overlay_eq_self
    (h : ∀ child ∈ above, ∃ old, base.get? child.1 = some old ∧ old.overlay child.2 = old) :
    base.overlay above = base := by
  induction above with
  | nil => rfl
  | cons child above ih =>
    obtain ⟨segment, node⟩ := child
    obtain ⟨hfirst, hrest⟩ := List.forall_mem_cons.mp h
    obtain ⟨old, hold, hsame⟩ := hfirst
    rw [overlay, hold]
    dsimp only at hsame ⊢
    rw [hsame, upsert_of_get? hold, ih hrest]

end Branch

mutual

/-- A node laid over what it was laid over already changes nothing. -/
theorem Node.overlay_laidOver : ∀ {above : Node}, above.Distinct → ∀ base : Option Node,
    (above.laidOver base).overlay above = above.laidOver base
  | .leaf template, _, base => by
    rw [Node.laidOver_of_isEntry rfl base, Node.overlay_of_isEntry _ rfl]
  | .conditional entry, _, base => by
    rw [Node.laidOver_of_isEntry rfl base, Node.overlay_of_isEntry _ rfl]
  | .branch above, h, base => by
    have hnodup := (Branch.distinct_iff.mp h).1
    have hchildren := Branch.overlay_laidOver_of_mem h
    -- Laid over itself, the group finds each child under its segment and joins it with itself.
    have hself : Branch.overlay above above = above := Branch.overlay_eq_self fun child hchild =>
      ⟨child.2, Branch.get?_eq_some_of_mem hnodup hchild, hchildren child hchild none⟩
    cases base with
    | none => rw [Node.laidOver, Node.overlay_branch_branch, hself]
    | some old =>
      cases hentry : old.isEntry with
      | true =>
        rw [Node.laidOver, Node.overlay_branch_of_isEntry hentry, Node.overlay_branch_branch, hself]
      | false =>
        obtain ⟨below, rfl⟩ := Node.exists_branch_of_isEntry_eq_false hentry
        rw [Node.laidOver, Node.overlay_branch_branch, Node.overlay_branch_branch,
          Branch.overlay_eq_self]
        -- In the joined group a child is found as it was laid over the one below.
        intro child hchild
        refine ⟨child.2.laidOver (Branch.get? below child.1), ?_, hchildren child hchild _⟩
        rw [Branch.get?_overlay below hnodup, Branch.get?_eq_some_of_mem hnodup hchild]

theorem Branch.overlay_laidOver_of_mem : ∀ {b : List (String × Node)}, Branch.Distinct b →
    ∀ child ∈ b, ∀ base : Option Node,
      (child.2.laidOver base).overlay child.2 = child.2.laidOver base
  | [], _, _, hchild, _ => nomatch hchild
  | (_, _) :: _, ⟨_, hnode, hrest⟩, child, hchild, base => by
    rcases List.mem_cons.mp hchild with rfl | hlater
    · exact Node.overlay_laidOver hnode base
    · exact Branch.overlay_laidOver_of_mem hrest child hlater base

end

namespace Branch

variable {base above built : Branch}

/-- Laying a group over another a second time changes nothing. -/
theorem overlay_overlay (base : Branch) (h : Distinct above) :
    (base.overlay above).overlay above = base.overlay above := by
  have htwice := Node.overlay_laidOver (show (Node.branch above).Distinct from h)
    (some (.branch base))
  rw [Node.laidOver, Node.overlay_branch_branch, Node.overlay_branch_branch] at htwice
  exact Node.branch.inj htwice

/-- A group laid over itself is the same group. -/
theorem overlay_self (h : Distinct above) : overlay above above = above := by
  have hself := Node.overlay_laidOver (show (Node.branch above).Distinct from h) none
  rw [Node.laidOver, Node.overlay_branch_branch] at hself
  exact Node.branch.inj hself

/-- Children with new segments are stored at the end as they are. -/
theorem overlay_of_new (h : above.segments.Nodup)
    (hnew : ∀ segment ∈ above.segments, segment ∉ built.segments) :
    overlay built above = built ++ above := by
  induction above generalizing built with
  | nil => simp [overlay]
  | cons child above ih =>
    obtain ⟨segment, node⟩ := child
    obtain ⟨hfirst, hrest⟩ := List.nodup_cons.mp h
    have hunused : segment ∉ built.segments := hnew segment List.mem_cons_self
    rw [overlay, get?_eq_none_iff.mpr hunused, upsert_of_not_mem hunused,
      ih hrest (not_mem_segments_concat hfirst hnew), List.append_assoc]
    rfl

/-- A group laid over the one without children is the same group. -/
theorem empty_overlay (h : Distinct above) : overlay [] above = above := by
  have hnodup := (distinct_iff.mp h).1
  exact overlay_of_new hnodup (by simp [segments])

end Branch

namespace IndexedBranch

/-- What two groups with coherent indexes make is told by what they make without them. -/
theorem Sound.overlay_eq_ok {base above joined : IndexedBranch} (hbase : base.Sound)
    (habove : above.Sound) (hjoined : joined.Sound)
    (h : base.toBranch.overlay above.toBranch = joined.toBranch) :
    base.overlay above = .ok joined := by
  obtain ⟨made, hmade, hmadeSound, hmadeTree⟩ := hbase.overlay habove
  rw [hmade, hmadeSound.ext hjoined (hmadeTree.trans h)]

end IndexedBranch

end Phrasebook

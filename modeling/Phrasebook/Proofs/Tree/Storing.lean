import Phrasebook.Proofs.Tree.Overlaying

/-!
# Trees built by storing

A group starts empty, and children are stored in it one after the other, each of them an entry or a
group that was built in the same way. What can be built so is any tree whose groups do not repeat
segments (`Branch.stored_iff_distinct`), whatever the segments are: also empty ones and ones with
dots, which no nested value has.
-/

namespace Phrasebook

mutual

/-- A node that is an entry, or a group built by storing children. -/
inductive Node.Stored : Node → Prop where
  | leaf (template : String) : Node.Stored (.leaf template)
  | conditional (entry : Conditional) : Node.Stored (.conditional entry)
  | branch {children : List (String × Node)} (h : Branch.Stored children) :
      Node.Stored (.branch children)

/-- A group built by storing children, from the empty one on. -/
inductive Branch.Stored : List (String × Node) → Prop where
  | empty : Branch.Stored []
  | upsert {b : List (String × Node)} {node : Node} (hb : Branch.Stored b) (segment : String)
      (hnode : Node.Stored node) : Branch.Stored (Branch.upsert b segment node)

end

/-- Storing a child keeps the segments of all groups distinct. -/
theorem Branch.Distinct.upsert {b : Branch} {node : Node} (hb : Branch.Distinct b)
    (segment : String) (hnode : node.Distinct) : Branch.Distinct (b.upsert segment node) := by
  obtain ⟨hnodup, hchildren⟩ := Branch.distinct_iff.mp hb
  refine Branch.distinct_iff.mpr ⟨Branch.nodup_segments_upsert hnodup segment node, ?_⟩
  intro child hchild
  rcases Branch.mem_upsert hchild with rfl | hmem
  · exact hnode
  · exact hchildren child hmem

mutual

theorem Node.Stored.distinct : ∀ {node : Node}, node.Stored → node.Distinct
  | _, .leaf _ => trivial
  | _, .conditional _ => trivial
  | _, .branch h => Branch.Stored.distinct h

/-- What is built by storing repeats no segment. -/
theorem Branch.Stored.distinct : ∀ {b : List (String × Node)}, Branch.Stored b → Branch.Distinct b
  | _, .empty => trivial
  | _, .upsert hb segment hnode => Branch.Distinct.upsert hb.distinct segment hnode.distinct

end

mutual

theorem Node.Distinct.stored : ∀ {node : Node}, node.Distinct → node.Stored
  | .leaf template, _ => .leaf template
  | .conditional entry, _ => .conditional entry
  | .branch children, h =>
    .branch (Branch.Stored.append .empty (b := children) h (by simp [Branch.segments]))

/-- Children with new segments can be stored behind those that are there. -/
theorem Branch.Stored.append {built : Branch} (hbuilt : Branch.Stored built) :
    ∀ {b : List (String × Node)}, Branch.Distinct b →
      (∀ segment ∈ Branch.segments b, segment ∉ built.segments) → Branch.Stored (built ++ b)
  | [], _, _ => by
    rw [List.append_nil]
    exact hbuilt
  | (segment, node) :: rest, h, hnew => by
    obtain ⟨hfirst, hnode, hrest⟩ := h
    have hnext := hbuilt.upsert segment hnode.stored
    rw [Branch.upsert_of_not_mem (hnew segment List.mem_cons_self)] at hnext
    have hlater := Branch.not_mem_segments_concat hfirst hnew
    have hall := Branch.Stored.append hnext hrest hlater
    rwa [List.append_assoc, List.singleton_append] at hall

end

/-- The trees that can be built by storing are those whose groups repeat no segment. -/
theorem Branch.stored_iff_distinct {b : Branch} : Branch.Stored b ↔ Branch.Distinct b := by
  refine ⟨Branch.Stored.distinct, fun h => ?_⟩
  have hall := Branch.Stored.append .empty h (by simp [Branch.segments])
  rwa [List.nil_append] at hall

end Phrasebook

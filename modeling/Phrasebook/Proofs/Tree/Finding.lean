import Phrasebook.Proofs.Tree.Storing
import Phrasebook.Proofs.Tree.Suggestions

/-!
# Finding a key

A key is followed from the root, one segment at a time, and what is found is what the segments lead
to, if that is an entry. A walk stops in one of five ways, of which only one gives suggestions: the
next segment is absent from the group that was reached. The suggestions are then keys of siblings of
the absent segment, each of which leads to a node.

* `Branch.leads_iff_at?`: in a tree without repeated segments what segments lead to is what is
  looked up, segment by segment;
* `Branch.exists_absent_of_walk`: where a walk stops that gives suggestions;
* `Branch.Stored.find_exact`: what finding a key answers in a tree built by storing, for every key.
-/

namespace Phrasebook

namespace Branch

/-- The group that segments lead to through groups; no segments lead to the group itself. -/
def GroupAt (b : Branch) (way : List String) (children : Branch) : Prop :=
  way = [] ∧ children = b ∨ Leads b way (.branch children)

variable {b children siblings : Branch} {segment : String} {segments way : List String}
  {node : Node} {key locale : String} {suggestions : List String}

/-! ### Segments that lead somewhere -/

theorem Leads.at? (h : Leads b segments node) (hb : Distinct b) :
    (Node.branch b).at? segments = some node := by
  induction h with
  | child hchild =>
    rw [Node.at?_branch_cons, get?_eq_some_of_mem (distinct_iff.mp hb).1 hchild]
    rfl
  | group hchild hbelow ih =>
    obtain ⟨hnodup, hchildren⟩ := distinct_iff.mp hb
    rw [Node.at?_branch_cons, get?_eq_some_of_mem hnodup hchild]
    exact ih (hchildren _ hchild)

/-- Without repeated segments, what segments lead to is what is looked up. -/
theorem leads_iff_at? (hb : Distinct b) :
    Leads b segments node ↔ segments ≠ [] ∧ (Node.branch b).at? segments = some node := by
  constructor
  · intro h
    refine ⟨?_, h.at? hb⟩
    rintro rfl
    cases h
  · rintro ⟨hne, hnode⟩
    clear hb
    induction segments generalizing b with
    | nil => exact absurd rfl hne
    | cons segment rest ih =>
      rw [Node.at?_branch_cons] at hnode
      obtain ⟨child, hchild, hbelow⟩ := Option.bind_eq_some_iff.mp hnode
      cases rest with
      | nil =>
        cases hbelow
        exact .child (mem_of_get? hchild)
      | cons next rest =>
        -- Something lies below the child, so it is a group.
        cases child with
        | branch children => exact .group (mem_of_get? hchild) (ih (by simp) hbelow)
        | leaf template => cases hbelow
        | conditional entry => cases hbelow

theorem GroupAt.cons (hchild : (segment, .branch children) ∈ b)
    (h : GroupAt children way siblings) : GroupAt b (segment :: way) siblings := by
  rcases h with ⟨rfl, rfl⟩ | hleads
  · exact Or.inr (.child hchild)
  · exact Or.inr (.group hchild hleads)

/-- A child of a group that was reached is one step further. -/
theorem GroupAt.leads (h : GroupAt b way siblings) (hchild : (segment, node) ∈ siblings) :
    Leads b (way ++ [segment]) node := by
  rcases h with ⟨rfl, rfl⟩ | hleads
  · exact .child hchild
  · -- By induction on the way; only its last step is to the group itself.
    generalize htarget : Node.branch siblings = target at hleads
    induction hleads with
    | child hgroup =>
      subst htarget
      exact .group hgroup (.child hchild)
    | group hgroup _ ih => exact .group hgroup (ih htarget)

/-! ### Walks that fail -/

/-- A walk that gives suggestions stops at a segment that is absent from the group that the segments
before it lead to, and suggests siblings of the absent segment. -/
theorem exists_absent_of_walk (h : Tree.walk way b segments = .error suggestions)
    (hne : suggestions ≠ []) :
    ∃ down segment rest siblings, segments = down ++ segment :: rest ∧
      GroupAt b down siblings ∧ segment ∉ siblings.segments ∧
      suggestions = Tree.siblingSuggestions (way ++ down) siblings segment := by
  induction segments generalizing way b with
  | nil =>
    cases h
    exact absurd rfl hne
  | cons segment rest ih =>
    rw [Tree.walk.eq_def] at h
    dsimp only at h
    split at h
    · -- The segment is absent.
      rename_i habsent
      cases h
      exact ⟨[], segment, rest, b, rfl, Or.inl ⟨rfl, rfl⟩, get?_eq_none_iff.mp habsent,
        by rw [List.append_nil]⟩
    · -- The segment names a group, where the key ends or the walk goes on.
      rename_i children hchild
      split at h
      · cases h
        exact absurd rfl hne
      · obtain ⟨down, absent, more, siblings, hsplit, hgroup, habsent, hsuggestions⟩ := ih h
        refine ⟨segment :: down, absent, more, siblings, by rw [hsplit]; rfl,
          hgroup.cons (mem_of_get? hchild), habsent, ?_⟩
        rw [hsuggestions, List.append_assoc, List.singleton_append]
    · -- The segment names an entry, where the key ends or has too many segments.
      split at h
      · cases h
      · cases h
        exact absurd rfl hne

/-- A suggestion consists of the way to a group and the segment of one of its children. -/
theorem exists_of_mem_siblingSuggestions {suggestion : String}
    (h : suggestion ∈ Tree.siblingSuggestions way siblings segment) :
    ∃ name node, (name, node) ∈ siblings ∧ suggestion = Key.join (way ++ [name]) := by
  obtain ⟨name, hname, rfl⟩ := List.mem_map.mp h
  obtain ⟨⟨name', node⟩, hchild, rfl⟩ := List.mem_map.mp (Tree.mem_of_mem_suggest hname).1
  exact ⟨name', node, hchild, rfl⟩

/-! ### Keys -/

theorem find_eq_invalidKey_iff {name : String} :
    (∃ fault, Tree.find b key locale = .error (.invalidKey name fault)) ↔
      name = key ∧ "" ∈ Key.parts key := by
  unfold Tree.find
  cases hsplit : Key.split key with
  | error fault =>
    have hempty : "" ∈ Key.parts key := by
      by_contra hnone
      rw [Key.split_eq_ok_iff_parts.mpr ⟨hnone, rfl⟩] at hsplit
      cases hsplit
    simp [hempty, eq_comm]
  | ok segments =>
    obtain ⟨hnone, rfl⟩ := Key.split_eq_ok_iff_parts.mp hsplit
    cases hwalk : Tree.walk [] b (Key.parts key) <;> simp [hwalk, hnone]

theorem find_eq_missingKey_iff {name place : String} :
    Tree.find b key locale = .error (.missingKey name place suggestions) ↔
      name = key ∧ place = locale ∧ "" ∉ Key.parts key ∧
        Tree.walk [] b (Key.parts key) = .error suggestions := by
  unfold Tree.find
  cases hsplit : Key.split key with
  | error fault =>
    simp only [Except.error.injEq, reduceCtorEq, false_iff, not_and]
    intro _ _ hnone
    rw [Key.split_eq_ok_iff_parts.mpr ⟨hnone, rfl⟩] at hsplit
    cases hsplit
  | ok segments =>
    obtain ⟨hnone, rfl⟩ := Key.split_eq_ok_iff_parts.mp hsplit
    cases hwalk : Tree.walk [] b (Key.parts key) <;> simp [hwalk, hnone, eq_comm]

/-- **Finding is exact.** In a tree built by storing, a key is refused as no key exactly if one of
its segments is empty; the empty key has one segment, which is empty. Otherwise an entry is found
exactly if the segments lead to it, through groups under all segments but the last, and never a
group. Otherwise the key is missing, and the failure names the whole key and the locale. There are
suggestions only where a segment is absent from the group that the segments before it lead to. Each
consists of these segments and the segment of a child of that group, so the path leads to a node;
and if that segment has no dot, the suggestion is split into this very path. -/
theorem Stored.find_exact (hb : Stored b) (key locale : String) :
    (∀ name, (∃ fault, Tree.find b key locale = .error (.invalidKey name fault)) ↔
      name = key ∧ (key = "" ∨ "" ∈ Key.parts key)) ∧
    (∀ node, Tree.find b key locale = .ok node ↔
      "" ∉ Key.parts key ∧ Leads b (Key.parts key) node ∧ node.isEntry = true) ∧
    (∀ name place,
      (∃ suggestions, Tree.find b key locale = .error (.missingKey name place suggestions)) ↔
        name = key ∧ place = locale ∧ "" ∉ Key.parts key ∧
          ∀ node, Leads b (Key.parts key) node → node.isEntry = false) ∧
    ∀ name place suggestions,
      Tree.find b key locale = .error (.missingKey name place suggestions) → suggestions ≠ [] →
        ∃ way segment rest siblings, Key.parts key = way ++ segment :: rest ∧
          GroupAt b way siblings ∧ segment ∉ siblings.segments ∧
          ∀ suggestion ∈ suggestions, ∃ sibling node,
            (sibling, node) ∈ siblings ∧ suggestion = Key.join (way ++ [sibling]) ∧
            Leads b (way ++ [sibling]) node ∧
            ('.' ∉ sibling.toList → Key.parts suggestion = way ++ [sibling]) := by
  have hleads : ∀ node, (Node.branch b).at? (Key.parts key) = some node ↔
      Leads b (Key.parts key) node := by
    intro node
    rw [leads_iff_at? hb.distinct]
    exact (and_iff_right (Key.parts_ne_nil key)).symm
  refine ⟨?_, ?_, ?_, ?_⟩
  · intro name
    rw [find_eq_invalidKey_iff, and_congr_right_iff]
    intro _
    refine ⟨Or.inr, ?_⟩
    rintro (rfl | hempty)
    · decide
    · exact hempty
  · intro node
    rw [find_eq_ok_iff_at?, hleads, Key.split_eq_ok_iff_parts]
    simp
  · intro name place
    simp only [find_eq_missingKey_iff, exists_and_left]
    refine and_congr_right fun _ => and_congr_right fun _ => and_congr_right fun _ => ?_
    -- A walk fails unless it ends well, which it does only at an entry.
    constructor
    · rintro ⟨suggestions, hwalk⟩ node hnode
      by_contra hentry
      have hok := (walk_eq_ok_iff []).mpr
        ⟨(hleads node).mpr hnode, (Bool.not_eq_false _).mp hentry⟩
      rw [hwalk] at hok
      cases hok
    · intro hnone
      cases hwalk : Tree.walk [] b (Key.parts key) with
      | error suggestions => exact ⟨suggestions, rfl⟩
      | ok node =>
        obtain ⟨hnode, hentry⟩ := (walk_eq_ok_iff []).mp hwalk
        rw [hnone node ((hleads node).mp hnode)] at hentry
        cases hentry
  · intro name place suggestions hmissing hne
    obtain ⟨-, -, -, hwalk⟩ := find_eq_missingKey_iff.mp hmissing
    obtain ⟨way, segment, rest, siblings, hsplit, hgroup, habsent, rfl⟩ :=
      exists_absent_of_walk hwalk hne
    refine ⟨way, segment, rest, siblings, hsplit, hgroup, habsent, ?_⟩
    intro suggestion hmem
    obtain ⟨sibling, node, hchild, rfl⟩ := exists_of_mem_siblingSuggestions hmem
    refine ⟨sibling, node, hchild, rfl, hgroup.leads hchild, ?_⟩
    intro hdot
    apply Key.parts_join (by simp)
    -- The segments on the way are parts of the key, so they have no dots.
    intro s hs
    rcases List.mem_append.mp hs with hway | hlast
    · have hpart : s ∈ Key.parts key := by
        rw [hsplit]
        exact List.mem_append_left _ hway
      exact Key.not_mem_of_mem_parts hpart
    · rwa [List.mem_singleton.mp hlast]

/-- Two texts in a group, stored one after the other, and a text under a segment with a dot. -/
def messageTree : Branch :=
  upsert (upsert [] "messages"
    (.branch (upsert (upsert [] "success" (.leaf "Done!")) "failure" (.leaf "Failed")))) "a.b"
    (.leaf "dotted")

/-- A key with a slip in it is missing, and the right one is suggested and found. -/
theorem find_exact_slip :
    Stored messageTree ∧
      Tree.find messageTree "messages.failure" "en" = .ok (.leaf "Failed") ∧
      Tree.find messageTree "messages.sucess" "en" =
        .error (.missingKey "messages.sucess" "en" ["messages.success"]) ∧
      ∃ way segment rest siblings, Key.parts "messages.sucess" = way ++ segment :: rest ∧
        GroupAt messageTree way siblings ∧ segment ∉ siblings.segments ∧
        ∀ suggestion ∈ ["messages.success"], ∃ sibling node,
          (sibling, node) ∈ siblings ∧ suggestion = Key.join (way ++ [sibling]) ∧
          Leads messageTree (way ++ [sibling]) node ∧
          ('.' ∉ sibling.toList → Key.parts suggestion = way ++ [sibling]) := by
  have hstored : Stored messageTree :=
    .upsert (.upsert .empty "messages" (.branch
      (.upsert (.upsert .empty "success" (.leaf _)) "failure" (.leaf _)))) "a.b" (.leaf _)
  -- Of the two siblings only one is near the slip, so it is the whole ranking.
  have hranking : Tree.Ranking "sucess" ["success", "failure"] ["success"] :=
    ⟨by decide +kernel, List.pairwise_singleton _ _⟩
  have hslip : Tree.find messageTree "messages.sucess" "en" =
      .error (.missingKey "messages.sucess" "en" ["messages.success"]) := by
    have hsplit : Key.split "messages.sucess" = .ok ["messages", "sucess"] := rfl
    have hwalk : Tree.walk [] messageTree ["messages", "sucess"] =
        .error (Tree.siblingSuggestions ["messages"]
          [("success", .leaf "Done!"), ("failure", .leaf "Failed")] "sucess") := rfl
    have hsuggest : Tree.suggest "sucess" (segments
        [("success", .leaf "Done!"), ("failure", .leaf "Failed")]) = ["success"] :=
      hranking.suggest_eq
    rw [Tree.find, hsplit]
    dsimp only
    rw [hwalk, Tree.siblingSuggestions, hsuggest]
    rfl
  have hfound := (hstored.find_exact "messages.failure" "en").2.1 (.leaf "Failed")
  refine ⟨hstored, hfound.mpr ⟨by decide +kernel, ?_, rfl⟩, hslip, ?_⟩
  · have hgroup : ("messages", .branch [("success", .leaf "Done!"), ("failure", .leaf "Failed")]) ∈
        messageTree := by decide +kernel
    exact .group hgroup (.child (by decide +kernel))
  · exact (hstored.find_exact "messages.sucess" "en").2.2.2 _ _ _ hslip (by simp)

end Branch

end Phrasebook

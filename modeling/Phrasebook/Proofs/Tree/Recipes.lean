import Mathlib.Data.Finset.Card
import Phrasebook.Proofs.Table.Distinct
import Phrasebook.Proofs.Tree.Indexing

/-!
# Trees and how they were made

A group is made from the empty one by storing nodes and by laying other groups over it, and a group
that is stored or laid over another was itself made in this way. A recipe lists these steps. It can
be carried out with indexes (`Recipe.run`) and without (`Recipe.tree`), and it says by itself which
node was last stored under a segment (`Recipe.last?`) and under which segments nodes were stored,
one after the other (`Recipe.insertions`).

* `Recipe.exists_run`: a recipe never reads outside a list, and makes its tree with coherent
  indexes;
* `Recipe.get?_tree`, `Recipe.segments_tree`: the tree of a recipe has what was stored last, in the
  order in which the segments were first used;
* `Recipe.run_represents`: what the groups of a tree with indexes hold, at every depth.
-/

namespace Phrasebook

mutual

/-- How a node is made. -/
inductive NodeRecipe where
  /-- An entry with one template. -/
  | leaf (template : String)
  /-- An entry with arms. -/
  | conditional (entry : Conditional)
  /-- A group. -/
  | branch (recipe : Recipe)

/-- How a group is made. -/
inductive Recipe where
  /-- The group without children. -/
  | empty
  /-- A node is stored in a group. -/
  | upsert (recipe : Recipe) (segment : String) (node : NodeRecipe)
  /-- A group is laid over another. -/
  | overlay (base above : Recipe)

end

mutual

/-- Makes a node with indexes. -/
def NodeRecipe.run : NodeRecipe → Except OutOfRange IndexedNode
  | .leaf template => .ok (.leaf template)
  | .conditional entry => .ok (.conditional entry)
  | .branch recipe => do return .branch (← Recipe.run recipe)

/-- Makes a group with indexes. -/
def Recipe.run : Recipe → Except OutOfRange IndexedBranch
  | .empty => .ok .empty
  | .upsert recipe segment node => do
    let group ← Recipe.run recipe
    group.upsert segment (← NodeRecipe.run node)
  | .overlay base above => do
    let below ← Recipe.run base
    IndexedBranch.overlay below (← Recipe.run above)

end

mutual

/-- The node that is made, without indexes. -/
def NodeRecipe.node : NodeRecipe → Node
  | .leaf template => .leaf template
  | .conditional entry => .conditional entry
  | .branch recipe => .branch (Recipe.tree recipe)

/-- The group that is made, without indexes. -/
def Recipe.tree : Recipe → Branch
  | .empty => []
  | .upsert recipe segment node => Branch.upsert (Recipe.tree recipe) segment (NodeRecipe.node node)
  | .overlay base above => Branch.overlay (Recipe.tree base) (Recipe.tree above)

end

/-- How a node is made that is laid over another one, if there is one: two groups are joined, and
otherwise only the node above counts. -/
def NodeRecipe.laidOver (above : NodeRecipe) (base : Option NodeRecipe) : NodeRecipe :=
  match above, base with
  | .branch new, some (.branch old) => .branch (.overlay old new)
  | above, _ => above

namespace Recipe

/-- How the node that was last stored under a segment was made. -/
def last? : Recipe → String → Option NodeRecipe
  | .empty, _ => none
  | .upsert recipe name node, segment =>
    if segment = name then some node else recipe.last? segment
  | .overlay base above, segment =>
    match above.last? segment with
    | some new => some (new.laidOver (base.last? segment))
    | none => base.last? segment

/-- The segments under which something was stored, in order and with repetitions. What a group holds
that is laid over another is stored after all that the other one holds. -/
def insertions : Recipe → List String
  | .empty => []
  | .upsert recipe segment _ => recipe.insertions ++ [segment]
  | .overlay base above => base.insertions ++ above.insertions

/-- How the group at a path was made. -/
def below? : Recipe → List String → Option Recipe
  | recipe, [] => some recipe
  | recipe, segment :: rest =>
    match recipe.last? segment with
    | some (.branch child) => child.below? rest
    | _ => none

end Recipe

/-! ### With indexes and without -/

mutual

theorem NodeRecipe.exists_run : ∀ recipe : NodeRecipe,
    ∃ node, recipe.run = .ok node ∧ node.Sound ∧ node.toNode = recipe.node
  | .leaf template => ⟨.leaf template, rfl, trivial, rfl⟩
  | .conditional entry => ⟨.conditional entry, rfl, trivial, rfl⟩
  | .branch recipe => by
    obtain ⟨g, hrun, hsound, htree⟩ := Recipe.exists_run recipe
    refine ⟨.branch g, ?_, hsound, ?_⟩
    · rw [NodeRecipe.run, hrun]
      rfl
    · rw [IndexedNode.toNode, htree, NodeRecipe.node]

/-- Every recipe can be carried out without reading outside a list, and makes its tree with
coherent indexes. -/
theorem Recipe.exists_run : ∀ recipe : Recipe,
    ∃ g : IndexedBranch, recipe.run = .ok g ∧ g.Sound ∧ g.toBranch = recipe.tree
  | .empty => ⟨.empty, rfl, IndexedBranch.sound_empty, rfl⟩
  | .upsert recipe segment node => by
    obtain ⟨g, hrun, hsound, htree⟩ := Recipe.exists_run recipe
    obtain ⟨child, hchild, hchildSound, hnode⟩ := NodeRecipe.exists_run node
    obtain ⟨next, hnext, hnextSound, hnextTree⟩ := hsound.upsert segment hchildSound
    refine ⟨next, ?_, hnextSound, ?_⟩
    · rw [Recipe.run, hrun, hchild]
      exact hnext
    · rw [hnextTree, htree, hnode, Recipe.tree]
  | .overlay base above => by
    obtain ⟨below, hbelow, hbelowSound, hbelowTree⟩ := Recipe.exists_run base
    obtain ⟨upper, hupper, hupperSound, hupperTree⟩ := Recipe.exists_run above
    obtain ⟨joined, hjoined, hjoinedSound, hjoinedTree⟩ := hbelowSound.overlay hupperSound
    refine ⟨joined, ?_, hjoinedSound, ?_⟩
    · rw [Recipe.run, hbelow, hupper]
      exact hjoined
    · rw [hjoinedTree, hbelowTree, hupperTree, Recipe.tree]

end

namespace Recipe

variable {recipe other base above : Recipe} {g g' : IndexedBranch} {segment : String}

theorem sound_of_run (h : recipe.run = .ok g) : g.Sound ∧ g.toBranch = recipe.tree := by
  obtain ⟨made, hrun, hsound, htree⟩ := recipe.exists_run
  rw [hrun] at h
  cases h
  exact ⟨hsound, htree⟩

theorem distinct_tree (recipe : Recipe) : Branch.Distinct recipe.tree := by
  obtain ⟨g, -, hsound, htree⟩ := recipe.exists_run
  rw [← htree]
  exact hsound.distinct

/-! ### What was stored -/

/-- A recipe for a laid over node makes the node laid over what the other recipe makes. -/
theorem node_laidOver (above : NodeRecipe) (base : Option NodeRecipe) :
    (above.laidOver base).node = above.node.laidOver (base.map NodeRecipe.node) := by
  cases base with
  | none => cases above <;> rfl
  | some old =>
    rw [Option.map_some]
    cases above with
    | leaf template | conditional entry => exact (Node.laidOver_of_isEntry rfl _).symm
    | branch new =>
      cases old with
      | leaf template | conditional entry =>
        simp [NodeRecipe.laidOver, NodeRecipe.node, Node.laidOver, Node.overlay]
      | branch old => exact (Node.overlay_branch_branch old.tree new.tree).symm

/-- Under a segment the tree has the node that was last stored there. -/
theorem get?_tree : ∀ (recipe : Recipe) (segment : String),
    recipe.tree.get? segment = (recipe.last? segment).map NodeRecipe.node
  | .empty, _ => rfl
  | .upsert recipe name node, segment => by
    rw [tree, last?, Branch.get?_upsert, get?_tree recipe]
    split <;> rfl
  | .overlay base above, segment => by
    -- The group above was made without repeated segments, so each is stored there once.
    have hnodup := (Branch.distinct_iff.mp above.distinct_tree).1
    rw [tree, last?, Branch.get?_overlay base.tree hnodup, get?_tree above, get?_tree base]
    cases above.last? segment with
    | none => rfl
    | some new => exact congrArg some (node_laidOver new _).symm

/-- The segments of the tree are in the order in which they were first used. -/
theorem segments_tree : ∀ recipe : Recipe,
    Branch.segments recipe.tree = recipe.insertions.eraseDups
  | .empty => by simp [tree, insertions, Branch.segments]
  | .upsert recipe segment node => by
    rw [tree, insertions, Branch.segments_upsert, segments_tree recipe, Table.eraseDups_concat]
    simp only [List.mem_eraseDups]
  | .overlay base above => by
    have hnodup := (Branch.distinct_iff.mp above.distinct_tree).1
    rw [tree, insertions, Branch.segments_overlay base.tree hnodup, segments_tree base,
      segments_tree above, Table.eraseDups_append_filter]

/-! ### What the groups of a tree hold -/

/-- Under a segment a group has the node that was last stored there, and no look-up reads outside
the list. -/
theorem get?_run (h : recipe.run = .ok g) (segment : String) :
    ∃ found, Indexed.get? g segment = .ok found ∧
      (recipe.last? segment).mapM NodeRecipe.run = .ok found := by
  obtain ⟨hsound, htree⟩ := sound_of_run h
  obtain ⟨found, hfound, hfoundSound, hnode⟩ := hsound.get? segment
  refine ⟨found, hfound, ?_⟩
  rw [htree, get?_tree] at hnode
  cases hlast : recipe.last? segment with
  | none =>
    rw [hlast] at hnode
    rw [Option.map_eq_none_iff.mp hnode]
    rfl
  | some made =>
    rw [hlast] at hnode
    obtain ⟨node, rfl, hmade⟩ := Option.map_eq_some_iff.mp hnode
    -- Both nodes have coherent indexes, and are the same without them.
    obtain ⟨child, hchild, hchildSound, hchildNode⟩ := made.exists_run
    have hsame : node = child :=
      (hfoundSound node rfl).ext hchildSound (hmade.trans hchildNode.symm)
    rw [hsame, Option.mapM_some, hchild]
    rfl

end Recipe

/-- What a group with an index holds, told by how it was made. -/
structure IndexedBranch.Represents (g : IndexedBranch) (recipe : Recipe) : Prop where
  /-- No segment is repeated. -/
  nodup : g.segments.Nodup
  /-- The index holds the position of each segment, and nothing else. -/
  index_iff : ∀ segment position,
    g.index.get? segment = some position ↔ g.segments[position]? = some segment
  /-- The group is said to have the segments of its children and no others. -/
  contains_iff : ∀ segment, g.contains segment = true ↔ segment ∈ g.segments
  /-- A look-up does not read outside the list, and finds the node that was last stored. -/
  get?_eq : ∀ segment, ∃ found, Indexed.get? g segment = .ok found ∧
    (recipe.last? segment).mapM NodeRecipe.run = .ok found
  /-- Storing any node under any segment does not read outside the list. -/
  exists_upsert : ∀ segment node, ∃ next, Indexed.upsert g segment node = .ok next
  /-- The segments are in the order in which they were first used. -/
  segments_eq : g.segments = recipe.insertions.eraseDups
  /-- The number of children is that of the different segments. -/
  size_eq : g.size = recipe.insertions.toFinset.card
  /-- Without its indexes the group is the one that is made without them. -/
  toBranch_eq : g.toBranch = recipe.tree

namespace Recipe

variable {recipe other : Recipe} {g g' group : IndexedBranch}

theorem represents_of_run (h : recipe.run = .ok g) : g.Represents recipe := by
  obtain ⟨hsound, htree⟩ := sound_of_run h
  have hroot := (IndexedBranch.sound_iff.mp hsound).1
  have hsegments : g.segments = recipe.insertions.eraseDups := by
    rw [← IndexedBranch.segments_toBranch, htree, segments_tree]
  refine ⟨hroot.nodup, hroot.index_iff, fun _ => hroot.contains_iff, get?_run h, ?_, hsegments, ?_,
    htree⟩
  · intro segment node
    obtain ⟨next, hnext, -⟩ := hroot.upsert segment node
    exact ⟨next, hnext⟩
  · have hmem : recipe.insertions.eraseDups.toFinset = recipe.insertions.toFinset := by
      ext segment
      simp
    rw [← hmem, ← hsegments, List.toFinset_card_of_nodup hroot.nodup]
    simp [Indexed.size, Indexed.segments]

/-- A group is made only by a recipe for a group. -/
theorem exists_branch_of_run {made : NodeRecipe} (h : made.run = .ok (.branch g)) :
    ∃ sub, made = .branch sub ∧ sub.run = .ok g := by
  cases made with
  | leaf template => cases h
  | conditional entry => cases h
  | branch sub =>
    obtain ⟨child, hchild, -⟩ := sub.exists_run
    rw [NodeRecipe.run, hchild] at h
    cases h
    exact ⟨sub, rfl, hchild⟩

/-- The groups of a tree were made as the recipe says that the groups at its paths were. -/
theorem exists_below (h : recipe.run = .ok g) (hgroup : group.Within g) :
    ∃ path sub, recipe.below? path = some sub ∧ sub.run = .ok group := by
  induction hgroup generalizing recipe with
  | root => exact ⟨[], recipe, rfl, h⟩
  | @step g child group segment hchild _ ih =>
    have hroot := (IndexedBranch.sound_iff.mp (sound_of_run h).1).1
    obtain ⟨found, hfound, hlast⟩ := get?_run h segment
    rw [hroot.get?_of_mem hchild] at hfound
    cases hfound
    -- The child is a group, so what was last stored under its segment is one.
    cases hmade : recipe.last? segment with
    | none =>
      rw [hmade] at hlast
      cases hlast
    | some made =>
      have hrun : made.run = .ok (.branch child) := by
        obtain ⟨node, hnode, -⟩ := made.exists_run
        rw [hmade, Option.mapM_some, hnode] at hlast
        cases hlast
        exact hnode
      obtain ⟨sub, rfl, hsub⟩ := exists_branch_of_run hrun
      -- The way to the group goes through the child, and on as in the tree of the child.
      obtain ⟨path, below, hbelow, hbelowRun⟩ := ih hsub
      refine ⟨segment :: path, below, ?_, hbelowRun⟩
      rw [below?, hmade]
      exact hbelow

/-- **Indexes and children agree.** A group that is made from the empty one by storing nodes and
laying groups over it, which were made in the same way, is made without reading outside a list. It
and every group below it have each segment once, in the order in which the segments were first used,
an index with just their positions, and under each segment the node that was last stored there, or
joined with the one that was there; and no look-up and no storing reads outside the list. Two such
groups are equal if their children are, and already if they are without all indexes. -/
theorem run_represents (recipe : Recipe) :
    ∃ g : IndexedBranch, recipe.run = .ok g ∧ g.Represents recipe ∧
      (∀ group : IndexedBranch, group.Within g → ∃ path sub, recipe.below? path = some sub ∧
        sub.run = .ok group ∧ group.Represents sub) ∧
      ∀ other : Recipe, ∃ g', other.run = .ok g' ∧
        (g = g' ↔ g.children = g'.children) ∧ (g = g' ↔ recipe.tree = other.tree) := by
  obtain ⟨g, hrun, hsound, htree⟩ := recipe.exists_run
  refine ⟨g, hrun, represents_of_run hrun, ?_, ?_⟩
  · intro group hgroup
    obtain ⟨path, sub, hbelow, hsub⟩ := exists_below hrun hgroup
    exact ⟨path, sub, hbelow, hsub, represents_of_run hsub⟩
  · intro other
    obtain ⟨g', hrun', hsound', htree'⟩ := other.exists_run
    refine ⟨g', hrun', ⟨fun h => congrArg _ h, ?_⟩, ?_, ?_⟩
    · intro hchildren
      have hroot := (IndexedBranch.sound_iff.mp hsound).1
      have hroot' := (IndexedBranch.sound_iff.mp hsound').1
      exact hroot.ext hroot' hchildren
    · rintro rfl
      rw [← htree, htree']
    · intro htrees
      exact hsound.ext hsound' (by rw [htree, htree', htrees])

/-- A menu with a group and an entry, under one that has the same group and another entry. -/
def menu : Recipe :=
  .overlay
    (.upsert (.upsert .empty "open" (.branch (.upsert .empty "file" (.leaf "File")))) "quit"
      (.leaf "Quit"))
    (.upsert (.upsert .empty "help" (.leaf "Help")) "open"
      (.branch (.upsert .empty "link" (.leaf "Link"))))

/-- The group that both menus have, joined. -/
def menuOpen : IndexedBranch :=
  ⟨[("file", .leaf "File"), ("link", .leaf "Link")], ⟨[("file", 0), ("link", 1)]⟩⟩

/-- Both menus, joined. -/
def menuJoined : IndexedBranch :=
  ⟨[("open", .branch menuOpen), ("quit", .leaf "Quit"), ("help", .leaf "Help")],
    ⟨[("help", 2), ("open", 0), ("quit", 1)]⟩⟩

/-- The group in the joined menu holds what its own recipe says. -/
theorem run_represents_menu :
    menu.run = .ok menuJoined ∧ menuJoined.Represents menu ∧ menuOpen.Within menuJoined ∧
      ∃ path sub, menu.below? path = some sub ∧ sub.run = .ok menuOpen ∧
        menuOpen.Represents sub := by
  have hmenu : menu.run = .ok menuJoined := rfl
  have hwithin : menuOpen.Within menuJoined := .step List.mem_cons_self (.root menuOpen)
  obtain ⟨g, hrun, hrepresents, hgroups, -⟩ := run_represents menu
  rw [hmenu] at hrun
  cases hrun
  exact ⟨hmenu, hrepresents, hwithin, hgroups menuOpen hwithin⟩

end Recipe

end Phrasebook

import Phrasebook.Proofs.Tree.Listing

/-!
# Where a tree cannot be built

A node is read from a text or a mapping. Where some nodes of a value from which a tree is built are
replaced by values of other kinds, no tree is built any more, and the fault that is reported names
the place of the first of them in the order of the document, whatever comes after it.

* `Nested.IsMisfit`: no node can be read from a value;
* `Nested.spoil`: a value with some of its nodes replaced;
* `Branch.FirstSpoiled`: the first node of a group that is replaced;
* `Tree.build_names_first_misfit`: the fault is at this node.
-/

namespace Phrasebook

namespace Nested

/-- Whether no node can be read from a value: it is neither a text nor a mapping. -/
def IsMisfit (value : Nested) : Prop :=
  value.kind ≠ .string ∧ value.kind ≠ .mapping

mutual

/-- A value with some of the nodes below it replaced: `misfits` gives what stands in the place of a
node, by the segments that lead to it. There are no nodes inside a conditional. -/
def spoil (misfits : List String → Option Nested) : Nested → Nested
  | .mapping entries =>
    if Tree.isConditional entries then .mapping entries else .mapping (spoilEach misfits entries)
  | value => value

/-- The entries of a group with some of the nodes below it replaced. -/
def spoilEach (misfits : List String → Option Nested) :
    List (String × Nested) → List (String × Nested)
  | [] => []
  | (segment, value) :: rest =>
    (segment, (misfits [segment]).getD (value.spoil fun way => misfits (segment :: way))) ::
      spoilEach misfits rest

end

/-- Replacing values keeps the keys. -/
theorem map_fst_spoilEach (misfits : List String → Option Nested)
    (entries : List (String × Nested)) :
    (spoilEach misfits entries).map Prod.fst = entries.map Prod.fst := by
  induction entries with
  | nil => rfl
  | cons entry rest ih =>
    obtain ⟨segment, value⟩ := entry
    rw [spoilEach, List.map_cons, List.map_cons, ih]

end Nested

/-! ### The first node that is replaced -/

/-- The children of a node; none for an entry. -/
def Node.children : Node → Branch
  | .branch children => children
  | _ => []

namespace Branch

variable {b children : Branch} {misfits : List String → Option Nested} {segment : String}
  {node : Node} {first way : List String}

/-- A node of a group comes before all others that are replaced, except for those inside it. -/
structure FirstSpoiled (b : Branch) (misfits : List String → Option Nested)
    (first : List String) : Prop where
  /-- It is a node of the group. -/
  leads : ∃ node, Leads b first node
  /-- Every other one that is replaced is inside it or comes later in the document. -/
  precedes : ∀ way node, Leads b way node → misfits way ≠ none → first <+: way ∨ Before b first way

/-- No node of a group is replaced. -/
def Unspoiled (b : Branch) (misfits : List String → Option Nested) : Prop :=
  ∀ way node, Leads b way node → misfits way = none

/-- Segments lead to the first child, to a node below it, or into the rest of the group. -/
theorem leads_cons {child : Node} (h : Leads ((segment, child) :: b) way node) :
    way = [segment] ∨ (∃ rest, way = segment :: rest ∧ Leads child.children rest node) ∨
      Leads b way node := by
  cases h with
  | child hmem =>
    rcases List.mem_cons.mp hmem with heq | hmem
    · cases heq
      exact Or.inl rfl
    · exact Or.inr (Or.inr (.child hmem))
  | group hmem hbelow =>
    rcases List.mem_cons.mp hmem with heq | hmem
    · cases heq
      exact Or.inr (Or.inl ⟨_, rfl, hbelow⟩)
    · exact Or.inr (Or.inr (.group hmem hbelow))

/-- Nothing leads into a group without children. -/
theorem not_leads_nil : ¬ Leads [] way node := by
  rintro (hmem | ⟨hmem, -⟩) <;> cases hmem

/-- A node that something leads on from is a group. -/
theorem Leads.eq_branch {child : Node} (h : Leads child.children way node) :
    child = .branch child.children := by
  cases child with
  | branch children => rfl
  | leaf template => exact absurd h not_leads_nil
  | conditional entry => exact absurd h not_leads_nil

/-- What leads into the rest of a group leads into the group. -/
theorem Leads.cons (h : Leads b way node) (child : String × Node) :
    Leads (child :: b) way node := by
  cases h with
  | child hmem => exact .child (List.mem_cons_of_mem child hmem)
  | group hmem hbelow => exact .group (List.mem_cons_of_mem child hmem) hbelow

/-- The first child and what is below it come before the rest of the group. -/
theorem Leads.before (h : Leads b way node) (segment : String) (child : Node) (p : List String) :
    Before ((segment, child) :: b) (segment :: p) way := by
  -- The way goes by a child of the rest, whose segment comes after this one.
  have hapart : ∀ {name : String} {below : Node}, (name, below) ∈ b → ∀ q,
      Before ((segment, child) :: b) (segment :: p) (name :: q) := by
    intro name below hmem q
    have hname : name ∈ segments b := List.mem_map.mpr ⟨_, hmem, rfl⟩
    exact .apart p q (List.Sublist.cons_cons segment (List.singleton_sublist.mpr hname))
  cases h with
  | child hmem => exact hapart hmem []
  | group hmem _ => exact hapart hmem _

/-- Where the first child is replaced, it is the first node that is. -/
theorem firstSpoiled_here (segment : String) (child : Node) (b : Branch)
    (misfits : List String → Option Nested) :
    FirstSpoiled ((segment, child) :: b) misfits [segment] := by
  refine ⟨⟨child, .child List.mem_cons_self⟩, ?_⟩
  intro way node hway _
  rcases leads_cons hway with rfl | ⟨rest, rfl, -⟩ | hlater
  · exact Or.inl (List.prefix_refl _)
  · exact Or.inl (List.prefix_append [segment] rest)
  · exact Or.inr (hlater.before segment child [])

/-- The first node below the first child that is replaced is the first one in the group, unless it
is the child itself. -/
theorem FirstSpoiled.below {child : Node}
    (h : FirstSpoiled child.children (fun way => misfits (segment :: way)) first)
    (hhere : misfits [segment] = none) (b : Branch) :
    FirstSpoiled ((segment, child) :: b) misfits (segment :: first) := by
  obtain ⟨⟨node, hnode⟩, hprecedes⟩ := h
  have hchild : (segment, .branch child.children) ∈ (segment, child) :: b := by
    rw [← hnode.eq_branch]
    exact List.mem_cons_self
  refine ⟨⟨node, .group hchild hnode⟩, ?_⟩
  intro way other hway hspoiled
  rcases leads_cons hway with rfl | ⟨rest, rfl, hbelow⟩ | hlater
  · exact absurd hhere hspoiled
  · rcases hprecedes rest other hbelow hspoiled with ⟨more, rfl⟩ | hbefore
    · exact Or.inl ⟨more, rfl⟩
    · exact Or.inr (.within hchild hbefore)
  · exact Or.inr (hlater.before segment child first)

section Later

variable {child : Node} (hhere : misfits [segment] = none)
  (hbelow : Unspoiled child.children fun way => misfits (segment :: way))

include hhere hbelow

/-- Where neither the first child nor a node below it is replaced, what is replaced is in the rest
of the group. -/
theorem leads_of_unspoiled (hway : Leads ((segment, child) :: b) way node)
    (hspoiled : misfits way ≠ none) : Leads b way node := by
  rcases leads_cons hway with rfl | ⟨rest, rfl, hrest⟩ | hlater
  · exact absurd hhere hspoiled
  · exact absurd (hbelow rest node hrest) hspoiled
  · exact hlater

theorem FirstSpoiled.later (h : FirstSpoiled b misfits first) :
    FirstSpoiled ((segment, child) :: b) misfits first := by
  obtain ⟨⟨node, hnode⟩, hprecedes⟩ := h
  refine ⟨⟨node, hnode.cons _⟩, ?_⟩
  intro way other hway hspoiled
  have hlater := leads_of_unspoiled hhere hbelow hway hspoiled
  exact (hprecedes way other hlater hspoiled).imp_right (Before.cons · _)

theorem unspoiled_cons (h : Unspoiled b misfits) : Unspoiled ((segment, child) :: b) misfits := by
  intro way node hway
  refine Decidable.byContradiction fun hspoiled => hspoiled ?_
  exact h way node (leads_of_unspoiled hhere hbelow hway hspoiled)

end Later

end Branch

/-! ### Building -/

namespace Tree

open Nested Branch

variable {value misfit : Nested} {entries : List (String × Nested)} {path : List String}
  {node : Node} {root built b : Branch} {misfits : List String → Option Nested} {segment : String}

/-- No node is read from a misfit. -/
theorem nodeOf_of_isMisfit (h : misfit.IsMisfit) (path : List String) :
    nodeOf path misfit = .error ⟨path, .entryKind misfit.kind⟩ := by
  cases misfit with
  | string text => exact absurd rfl h.1
  | mapping entries => exact absurd rfl h.2
  | _ => rfl

/-- Replacing values below a group leaves it a group. -/
theorem isConditional_spoilEach (misfits : List String → Option Nested)
    (entries : List (String × Nested)) :
    isConditional (spoilEach misfits entries) = isConditional entries := by
  have hkeys : ∀ entries : List (String × Nested),
      isConditional entries = (entries.map Prod.fst).any (· == conditionalKey) := by
    intro entries
    rw [isConditional, List.any_map]
    rfl
  rw [hkeys, hkeys, map_fst_spoilEach]

/-- A tree is built from the children of a group. -/
theorem exists_entries_of_build (h : build value = .ok root) :
    ∃ entries, value = .mapping entries ∧ isConditional entries = false ∧
      childrenOf [] [] entries = .ok root := by
  rw [build.eq_def] at h
  split at h
  · rename_i entries
    split at h
    · cases h
    · rename_i hkind
      exact ⟨entries, rfl, by simpa using hkind, h⟩
  · cases h

/-- A group is read from its entries, also where some of them are replaced. -/
theorem nodeOf_spoil (hkind : isConditional entries = false) (path : List String)
    (misfits : List String → Option Nested) :
    nodeOf path ((mapping entries).spoil misfits) =
      (childrenOf path [] (spoilEach misfits entries)).map .branch := by
  have hsame := (isConditional_spoilEach misfits entries).trans hkind
  rw [spoil, if_neg (by simp [hkind]), nodeOf, if_neg (by simp [hsame])]

/-- What reading a group comes to where some nodes are replaced, if it was read with the children
`b`: it fails at the first of these nodes, or there are none and the result is the same. -/
inductive Spoiling {α : Type} (misfits : List String → Option Nested) (path : List String)
    (b : Branch) (result : Except StructureFault α) : Except StructureFault α → Prop where
  /-- The node at `first` is the first one that is replaced. -/
  | first {first : List String} {misfit : Nested} (hmisfit : misfits first = some misfit)
      (hfirst : FirstSpoiled b misfits first) :
      Spoiling misfits path b result (.error ⟨path ++ first, .entryKind misfit.kind⟩)
  /-- Nothing is replaced. -/
  | unspoiled (h : Unspoiled b misfits) : Spoiling misfits path b result result

/-- The first child is read, and then the others. -/
theorem childrenOf_cons (hname : NamesChild segment) (hnew : segment ∉ built.segments)
    (value : Nested) (rest : List (String × Nested)) :
    childrenOf path built ((segment, value) :: rest) =
      (nodeOf (path ++ [segment]) value).bind fun node =>
        childrenOf path (built ++ [(segment, node)]) rest := by
  rw [childrenOf, segmentProblem?_eq_none_iff.mpr ⟨hname, hnew⟩]
  cases nodeOf (path ++ [segment]) value with
  | error fault => rfl
  | ok node =>
    dsimp only [Except.bind]
    rw [upsert_of_not_mem hnew]

mutual

/-- A node that is read fails at the first node below it that is replaced. -/
theorem spoiling_nodeOf : ∀ {value : Nested} {path : List String} {node : Node},
    nodeOf path value = .ok node → ∀ {misfits : List String → Option Nested},
      (∀ way misfit, misfits way = some misfit → misfit.IsMisfit) →
      Spoiling misfits path node.children (.ok node) (nodeOf path (value.spoil misfits))
  | .string _, _, _, h, _, _ => by
    cases h
    exact .unspoiled fun _ _ hway => absurd hway not_leads_nil
  | .mapping entries, path, node, h, misfits, hmisfits => by
    cases hkind : isConditional entries with
    | true =>
      obtain ⟨c, rfl, -⟩ := exists_conditional_of_nodeOf h hkind
      rw [spoil, if_pos hkind, h]
      exact .unspoiled fun _ _ hway => absurd hway not_leads_nil
    | false =>
      obtain ⟨b, rfl, hchildren⟩ := exists_branch_of_nodeOf h hkind
      obtain ⟨new, rfl, hspoiling⟩ := spoiling_childrenOf hchildren hmisfits
      rw [nodeOf_spoil hkind]
      generalize childrenOf path [] (spoilEach misfits entries) = result at hspoiling
      cases hspoiling with
      | first hmisfit hfirst => exact .first hmisfit hfirst
      | unspoiled hnone => exact .unspoiled hnone
  | .null, _, _, h, _, _ => by cases h
  | .boolean _, _, _, h, _, _ => by cases h
  | .integer _, _, _, h, _, _ => by cases h
  | .float _, _, _, h, _, _ => by cases h
  | .sequence _, _, _, h, _, _ => by cases h

/-- Children that are read fail at the first of the nodes that are replaced. -/
theorem spoiling_childrenOf : ∀ {entries : List (String × Nested)} {path : List String}
    {built b : Branch}, childrenOf path built entries = .ok b →
      ∀ {misfits : List String → Option Nested},
      (∀ way misfit, misfits way = some misfit → misfit.IsMisfit) →
      ∃ new, b = built ++ new ∧
        Spoiling misfits path new (.ok b) (childrenOf path built (spoilEach misfits entries))
  | [], _, built, b, h, _, _ => by
    cases h
    exact ⟨[], by simp, .unspoiled fun _ _ hway => absurd hway not_leads_nil⟩
  | (segment, value) :: rest, path, built, b, h, misfits, hmisfits => by
    obtain ⟨hname, hnew, node, hnode, hrest⟩ := exists_child_of_childrenOf_cons h
    obtain ⟨new, rfl, hlater⟩ := spoiling_childrenOf hrest hmisfits
    refine ⟨(segment, node) :: new, by simp, ?_⟩
    rw [spoilEach, childrenOf_cons hname hnew]
    cases hhere : misfits [segment] with
    | some misfit =>
      -- The child itself is replaced, so nothing after it matters.
      rw [Option.getD_some, nodeOf_of_isMisfit (hmisfits _ _ hhere)]
      exact .first hhere (firstSpoiled_here segment node new misfits)
    | none =>
      rw [Option.getD_none]
      have hspoiling := spoiling_nodeOf hnode fun way => hmisfits (segment :: way)
      generalize nodeOf (path ++ [segment]) (value.spoil _) = result at hspoiling
      cases hspoiling with
      | @first below misfit hmisfit hfirst =>
        have hpath : path ++ [segment] ++ below = path ++ segment :: below := by simp
        rw [hpath]
        exact .first hmisfit (hfirst.below hhere new)
      | unspoiled hbelow =>
        -- The child is read as before, and the others decide.
        dsimp only [Except.bind]
        generalize childrenOf path _ (spoilEach misfits rest) = result at hlater
        cases hlater with
        | first hmisfit hfirst => exact .first hmisfit (hfirst.later hhere hbelow)
        | unspoiled hnone => exact .unspoiled (unspoiled_cons hhere hbelow hnone)

end

/-- **The first misfit is named.** If a tree is built from a value, and some nodes of the tree are
replaced in the value by what is neither a text nor a mapping, then no tree is built, and the fault
is at the first of these nodes in the order of the document. Its place is the key of that node. -/
theorem build_names_first_misfit (h : build value = .ok root)
    (hmisfits : ∀ way misfit, misfits way = some misfit → misfit.IsMisfit)
    (hsome : ∃ way node, Leads root way node ∧ misfits way ≠ none) :
    ∃ first misfit, misfits first = some misfit ∧ FirstSpoiled root misfits first ∧
      ∃ fault, build (value.spoil misfits) = .error fault ∧ fault.path = first ∧
        fault.problem = .entryKind misfit.kind ∧ fault.place = Key.join first := by
  obtain ⟨entries, rfl, hkind, hchildren⟩ := exists_entries_of_build h
  obtain ⟨new, hnew, hspoiling⟩ := spoiling_childrenOf hchildren hmisfits
  rw [List.nil_append] at hnew
  subst hnew
  have hbuild : build ((mapping entries).spoil misfits) =
      childrenOf [] [] (spoilEach misfits entries) := by
    have hsame := (isConditional_spoilEach misfits entries).trans hkind
    rw [spoil, if_neg (by simp [hkind]), build, if_neg (by simp [hsame])]
  rw [hbuild]
  generalize childrenOf [] [] (spoilEach misfits entries) = result at hspoiling
  cases hspoiling with
  | @first first misfit hmisfit hfirst =>
    refine ⟨first, misfit, hmisfit, hfirst, _, rfl, rfl, rfl, ?_⟩
    -- The root is not replaced, so the place is not that of the root.
    obtain ⟨node, hnode⟩ := hfirst.leads
    have hne : first ≠ [] := by
      rintro rfl
      cases hnode
    simp [StructureFault.place, hne]
  | unspoiled hnone =>
    obtain ⟨way, node, hway, hspoiled⟩ := hsome
    exact absurd (hnone way node hway) hspoiled

/-- A value with a group beside and below another one, and a conditional after both. -/
def windowValue : Nested :=
  .mapping
    [("menu", .mapping [("file", .mapping [("open", .string "Open")]), ("quit", .string "Quit")]),
      ("tabs", .mapping [(conditionalKey, .mapping [("n = 1", .string "one tab")])])]

/-- The entry after the inner group and the conditional are replaced. -/
def windowMisfits (way : List String) : Option Nested :=
  if way = ["menu", "quit"] then some (.sequence [.string "Quit"])
  else if way = ["tabs"] then some .null
  else none

/-- The fault is at the entry that follows the inner group, and its path has left that group. -/
theorem build_names_first_misfit_window :
    (∃ root, build windowValue = .ok root) ∧
      build (windowValue.spoil windowMisfits) =
        .error ⟨["menu", "quit"], .entryKind .sequence⟩ ∧
      ∃ root first misfit, windowMisfits first = some misfit ∧
        FirstSpoiled root windowMisfits first ∧
        ∃ fault, build (windowValue.spoil windowMisfits) = .error fault ∧ fault.path = first := by
  have hbuild : ∃ root, build windowValue = .ok root := ⟨_, rfl⟩
  have hmisfits : ∀ way misfit, windowMisfits way = some misfit → misfit.IsMisfit := by
    intro way misfit h
    rw [windowMisfits] at h
    split at h
    · cases h
      exact ⟨by decide, by decide⟩
    split at h
    · cases h
      exact ⟨by decide, by decide⟩
    · cases h
  obtain ⟨root, hroot⟩ := hbuild
  have hsome : ∃ way node, Leads root way node ∧ windowMisfits way ≠ none := by
    cases hroot
    exact ⟨["tabs"], _, .child (List.mem_cons_of_mem _ List.mem_cons_self), by decide⟩
  obtain ⟨first, misfit, hmisfit, hfirst, fault, hfault, hpath, -⟩ :=
    build_names_first_misfit hroot hmisfits hsome
  exact ⟨⟨root, hroot⟩, rfl, root, first, misfit, hmisfit, hfirst, fault, hfault, hpath⟩

end Tree

end Phrasebook

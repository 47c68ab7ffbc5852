import Mathlib.Data.List.Forall2
import Phrasebook.Proofs.Tree.Children

/-!
# Trees written as nested values

The same tree can be written as nested values in several ways: the fields of an arm and the keys of
a conditional stand in either order, and arms without repeated conditions may be one mapping.
`Node.Written` and `Branch.Written` say what counts as writing a tree, and
`Tree.build_eq_ok_of_written` that building undoes every way of writing. Leaf texts, conditions and
templates are arbitrary; they may look like keys with a meaning. Since every tree with good names
can be written (`Node.exists_written`), those are exactly the trees that can be built
(`Tree.build_undoes_writing`).
-/

namespace Phrasebook

open Phrasebook.Tree

/-! ### Ways of writing -/

/-- An arm is a mapping of its two fields, in either order. -/
inductive Arm.Written (arm : Arm) : Nested → Prop where
  | conditionFirst : arm.Written
      (.mapping [(whenField, .string arm.condition), (textField, .string arm.template)])
  | templateFirst : arm.Written
      (.mapping [(textField, .string arm.template), (whenField, .string arm.condition)])

/-- Arms are a sequence. If no condition is repeated, they may be a mapping from conditions to
templates instead. -/
inductive Arm.AllWritten (arms : List Arm) : Nested → Prop where
  | sequence {items : List Nested} (h : List.Forall₂ Arm.Written arms items) :
      AllWritten arms (.sequence items)
  | mapping (h : (arms.map Arm.condition).Nodup) :
      AllWritten arms (.mapping (arms.map fun arm => (arm.condition, .string arm.template)))

/-- A conditional is a mapping of its arms and its default, if it has one, in either order. -/
inductive Conditional.Written : Conditional → List (String × Nested) → Prop where
  | withoutDefault {arms : List Arm} {value : Nested} (h : Arm.AllWritten arms value) :
      Written ⟨arms, none⟩ [(conditionalKey, value)]
  | defaultLast {arms : List Arm} {value : Nested} (h : Arm.AllWritten arms value)
      (template : String) :
      Written ⟨arms, some template⟩ [(conditionalKey, value), (defaultKey, .string template)]
  | defaultFirst {arms : List Arm} {value : Nested} (h : Arm.AllWritten arms value)
      (template : String) :
      Written ⟨arms, some template⟩ [(defaultKey, .string template), (conditionalKey, value)]

mutual

/-- A template is a text, a conditional and a group are mappings. -/
inductive Node.Written : Node → Nested → Prop where
  | leaf (template : String) : Node.Written (.leaf template) (.string template)
  | conditional {entry : Conditional} {entries : List (String × Nested)}
      (h : entry.Written entries) : Node.Written (.conditional entry) (.mapping entries)
  | branch {children : List (String × Node)} {entries : List (String × Nested)}
      (h : Branch.Written children entries) : Node.Written (.branch children) (.mapping entries)

/-- A group is a mapping of its children in their order. -/
inductive Branch.Written : List (String × Node) → List (String × Nested) → Prop where
  | nil : Branch.Written [] []
  | cons {segment : String} {node : Node} {value : Nested} {rest : List (String × Node)}
      {entries : List (String × Nested)} (hnode : node.Written value)
      (hrest : Branch.Written rest entries) :
      Branch.Written ((segment, node) :: rest) ((segment, value) :: entries)

end

/-! ### Every tree can be written -/

theorem Arm.allWritten_sequence (arms : List Arm) :
    AllWritten arms (.sequence (arms.map fun arm =>
      .mapping [(whenField, .string arm.condition), (textField, .string arm.template)])) := by
  refine .sequence (List.forall₂_map_right_iff.mpr (List.forall₂_same.mpr ?_))
  intro arm _
  exact .conditionFirst

theorem Conditional.exists_written (entry : Conditional) : ∃ entries, entry.Written entries := by
  obtain ⟨arms, _ | template⟩ := entry
  · exact ⟨_, .withoutDefault (Arm.allWritten_sequence arms)⟩
  · exact ⟨_, .defaultLast (Arm.allWritten_sequence arms) template⟩

mutual

theorem Node.exists_written : (node : Node) → ∃ value, node.Written value
  | .leaf template => ⟨_, .leaf template⟩
  | .conditional entry => by
    obtain ⟨entries, hentries⟩ := entry.exists_written
    exact ⟨_, .conditional hentries⟩
  | .branch children => by
    obtain ⟨entries, hentries⟩ := Branch.exists_written children
    exact ⟨_, .branch hentries⟩

theorem Branch.exists_written : (b : List (String × Node)) → ∃ entries, Branch.Written b entries
  | [] => ⟨_, .nil⟩
  | (_, node) :: rest => by
    obtain ⟨value, hvalue⟩ := node.exists_written
    obtain ⟨entries, hentries⟩ := Branch.exists_written rest
    exact ⟨_, .cons hvalue hentries⟩

end

namespace Tree

/-! ### Conditionals -/

theorem armOfFields_of_written {arm : Arm} {value : Nested} (h : arm.Written value) (i : Nat) :
    armOfFields i value = .ok arm := by
  cases h with
  | conditionFirst => rfl
  | templateFirst => rfl

theorem armsOfSequence_of_written {arms : List Arm} {items : List Nested}
    (h : List.Forall₂ Arm.Written arms items) (i : Nat) :
    armsOfSequence i items = .ok arms := by
  induction h generalizing i with
  | nil => rfl
  | cons harm _ ih =>
    rw [armsOfSequence, armOfFields_of_written harm i, ih (i + 1)]
    rfl

theorem armsOfMapping_of_nodup {arms : List Arm} (seen : List String) (i : Nat)
    (hnodup : (arms.map Arm.condition).Nodup) (hseen : ∀ arm ∈ arms, arm.condition ∉ seen) :
    armsOfMapping seen i (arms.map fun arm => (arm.condition, .string arm.template)) =
      .ok arms := by
  induction arms generalizing seen i with
  | nil => rfl
  | cons arm rest ih =>
    obtain ⟨hnew, hnodup⟩ := List.nodup_cons.mp hnodup
    -- A later condition differs from this one, and was not seen before it either.
    have hrest : ∀ later ∈ rest, later.condition ∉ arm.condition :: seen := by
      intro later hlater hmem
      rcases List.mem_cons.mp hmem with heq | hmem
      · exact hnew (heq ▸ List.mem_map_of_mem hlater)
      · exact hseen later (List.mem_cons_of_mem arm hlater) hmem
    have harm : ¬ seen.contains arm.condition = true := by
      simpa using hseen arm List.mem_cons_self
    rw [List.map_cons, armsOfMapping, if_neg harm, ih (arm.condition :: seen) (i + 1) hnodup hrest]
    rfl

theorem armsOf_of_written {arms : List Arm} {value : Nested} (h : Arm.AllWritten arms value) :
    armsOf value = .ok arms := by
  cases h with
  | sequence hitems => exact armsOfSequence_of_written hitems 0
  | mapping hnodup => exact armsOfMapping_of_nodup [] 0 hnodup (by simp)

theorem takeConditionalEntry_arms {arms : List Arm} {value : Nested}
    (h : Arm.AllWritten arms value) (c : Conditional) :
    takeConditionalEntry c (conditionalKey, value) = .ok { c with arms } := by
  simp [takeConditionalEntry, armsOf_of_written h, bind, Except.bind]

theorem takeConditionalEntry_default (c : Conditional) (template : String) :
    takeConditionalEntry c (defaultKey, .string template) =
      .ok { c with otherwise := some template } :=
  rfl

theorem conditionalOf_of_written {entry : Conditional} {entries : List (String × Nested)}
    (h : entry.Written entries) : conditionalOf entries = .ok entry := by
  -- Either key sets its own part of the conditional, so their order does not matter.
  cases h with
  | withoutDefault harms =>
    simp [conditionalOf, takeConditionalEntry_arms harms]
  | defaultLast harms template =>
    simp [conditionalOf, takeConditionalEntry_arms harms, takeConditionalEntry_default, bind,
      Except.bind, pure, Except.pure]
  | defaultFirst harms template =>
    simp [conditionalOf, takeConditionalEntry_arms harms, takeConditionalEntry_default, bind,
      Except.bind, pure, Except.pure]

theorem isConditional_of_written {entry : Conditional} {entries : List (String × Nested)}
    (h : entry.Written entries) : isConditional entries = true := by
  cases h with
  | withoutDefault harms => rfl
  | defaultLast harms template => rfl
  | defaultFirst harms template => rfl

/-! ### Groups -/

theorem ne_conditionalKey_of_namesChild {segment : String} (h : NamesChild segment) :
    segment ≠ conditionalKey := by
  rintro rfl
  exact h.2.2 rfl

/-- A group is not taken for a conditional, because no child is named by a key with a meaning. -/
theorem isConditional_of_branch_written {b : List (String × Node)}
    {entries : List (String × Nested)} (h : Branch.Written b entries) (hb : Branch.WellNamed b) :
    isConditional entries = false := by
  induction h using Branch.Written.rec (motive_1 := fun _ _ _ => True) with
  | nil => rfl
  | cons _ _ _ ih =>
    obtain ⟨hname, -, -, hrest⟩ := hb
    simpa [isConditional, ne_conditionalKey_of_namesChild hname] using ih hrest
  | _ => trivial

mutual

theorem nodeOf_of_written : ∀ {node : Node} {value : Nested}, node.Written value →
    node.WellNamed → ∀ path, nodeOf path value = .ok node
  | _, _, .leaf _, _, _ => rfl
  | _, _, .conditional h, _, path => by
    rw [nodeOf, if_pos (isConditional_of_written h), conditionalOf_of_written h]
    rfl
  | _, _, .branch h, hnamed, path => by
    have hkind := isConditional_of_branch_written h hnamed
    rw [nodeOf, hkind, childrenOf_of_written h hnamed path [] (by simp [Branch.segments])]
    rfl

/-- Building a written group puts its children, in their order, after those built before. -/
theorem childrenOf_of_written : ∀ {b : List (String × Node)} {entries : List (String × Nested)},
    Branch.Written b entries → Branch.WellNamed b →
      ∀ path (built : Branch), (∀ segment ∈ Branch.segments b, segment ∉ built.segments) →
        childrenOf path built entries = .ok (built ++ b)
  | _, _, .nil, _, _, built, _ => by rw [childrenOf, List.append_nil]
  | _, _, @Branch.Written.cons segment node _ rest _ hnode hrest, hnamed, path, built, hnew => by
    obtain ⟨hname, hfirst, hnodeNamed, hrestNamed⟩ := hnamed
    have hunused : segment ∉ built.segments := hnew segment List.mem_cons_self
    have hproblem : segmentProblem? built segment = none :=
      segmentProblem?_eq_none_iff.mpr ⟨hname, hunused⟩
    -- The child goes to the end of the group, since nothing there has its name.
    have hnext := Branch.not_mem_segments_concat hfirst hnew
    rw [childrenOf, hproblem]
    dsimp only
    rw [nodeOf_of_written hnode hnodeNamed]
    dsimp only
    rw [Branch.upsert_of_not_mem hunused,
      childrenOf_of_written hrest hrestNamed path _ hnext, List.append_assoc]
    rfl

end

/-- Building undoes every way of writing a tree. -/
theorem build_eq_ok_of_written {b : Branch} {value : Nested} (h : (Node.branch b).Written value)
    (hb : Branch.WellNamed b) : build value = .ok b := by
  cases h with
  | branch h =>
    rw [build, isConditional_of_branch_written h hb, if_neg (by simp),
      childrenOf_of_written h hb [] [] (by simp [Branch.segments]), List.nil_append]

/-- **Building undoes writing.** Every tree with distinct segments that name children can be
written, and however it is written, building gives exactly that tree: the same children, arms and
default in the same order. Conversely only such trees are ever built. -/
theorem build_undoes_writing :
    (∀ b : Branch, Branch.WellNamed b →
      (∃ value, (Node.branch b).Written value) ∧
        ∀ value, (Node.branch b).Written value → build value = .ok b) ∧
      ∀ value b, build value = .ok b → Branch.WellNamed b := by
  refine ⟨fun b hb => ⟨(Node.branch b).exists_written, ?_⟩, ?_⟩
  · intro value hvalue
    exact build_eq_ok_of_written hvalue hb
  · intro value b hbuild
    exact wellNamed_of_build hbuild

/-- Texts that look like keys with a meaning: a leaf, two conditions and a default. -/
def deceptiveTree : Branch :=
  [("when", .leaf "$conditional"), ("empty", .branch []),
    ("text", .branch
      [("one", .conditional ⟨[⟨"$default", "when"⟩, ⟨"when", "$default"⟩], some "text"⟩),
       ("two", .conditional ⟨[⟨"x", "a"⟩, ⟨"x", "b"⟩], none⟩)])]

/-- The tree with the default before the arms, once as a mapping, and with the templates before the
conditions, where a condition is repeated. -/
def deceptiveValue : Nested :=
  .mapping
    [("when", .string "$conditional"), ("empty", .mapping []),
      ("text", .mapping
        [("one", .mapping
          [("$default", .string "text"),
           ("$conditional", .mapping
             [("$default", .string "when"), ("when", .string "$default")])]),
         ("two", .mapping
          [("$conditional", .sequence
            [.mapping [("text", .string "a"), ("when", .string "x")],
             .mapping [("when", .string "x"), ("text", .string "b")]])])])]

theorem written_deceptiveTree : (Node.branch deceptiveTree).Written deceptiveValue := by
  have hone : Arm.AllWritten [⟨"$default", "when"⟩, ⟨"when", "$default"⟩]
      (.mapping [("$default", .string "when"), ("when", .string "$default")]) :=
    .mapping (by decide)
  have htwo : Arm.AllWritten [⟨"x", "a"⟩, ⟨"x", "b"⟩]
      (.sequence [.mapping [("text", .string "a"), ("when", .string "x")],
        .mapping [("when", .string "x"), ("text", .string "b")]]) :=
    .sequence (.cons .templateFirst (.cons .conditionFirst .nil))
  exact .branch (.cons (.leaf _) (.cons (.branch .nil) (.cons
    (.branch (.cons (.conditional (.defaultFirst hone _))
      (.cons (.conditional (.withoutDefault htwo)) .nil))) .nil)))

/-- Texts are never taken for keys. -/
theorem build_undoes_writing_deceptive :
    Branch.WellNamed deceptiveTree ∧ (Node.branch deceptiveTree).Written deceptiveValue ∧
      build deceptiveValue = .ok deceptiveTree := by
  have hnamed : Branch.WellNamed deceptiveTree := by
    simp [deceptiveTree, Branch.WellNamed, Node.WellNamed, NamesChild, Branch.segments]
  refine ⟨hnamed, written_deceptiveTree, ?_⟩
  exact (build_undoes_writing.1 deceptiveTree hnamed).2 deceptiveValue written_deceptiveTree

end Tree

end Phrasebook

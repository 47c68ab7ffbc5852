import Phrasebook.Proofs.Table.Bindings
import Phrasebook.Proofs.Tree.Overlaying

/-!
# Repeated keys of nested values

Mappings of nested values may repeat keys, and building a tree reads four kinds of mappings: groups,
conditionals, tables from conditions to templates, and the fields of an arm. Groups and tables of
arms are refused if they repeat a key. Conditionals and fields of arms are not: of a key that they
repeat the last value counts, and what was written before it is lost (`repeats_lose_text`).

* `Tree.Reaches`: the mappings inside a value from which nodes are built, and the way to them;
* `Conditional.CountsLast`, `Arm.CountsLast`: the last value of every key counts;
* `Tree.build_counts_last`: groups and tables of arms in a tree that is built repeat no key, and of
  conditionals and fields of arms the last values count.
-/

namespace Phrasebook

open Table

/-- A conditional has the arms that are written last for it, and the default written last, if there
is one. -/
structure Conditional.CountsLast (entries : List (String × Nested)) (c : Conditional) : Prop where
  /-- The arms are read from the last value of their key. -/
  arms : ∀ value, LastBinding entries Tree.conditionalKey value → Tree.armsOf value = .ok c.arms
  /-- The default is the last value of its key. -/
  otherwise : ∀ template,
    c.otherwise = some template ↔ LastBinding entries Tree.defaultKey (.string template)

/-- An arm has the condition and the template that are written last for it. -/
structure Arm.CountsLast (fields : List (String × Nested)) (arm : Arm) : Prop where
  /-- The condition is the last value of its field. -/
  condition : LastBinding fields Tree.whenField (.string arm.condition)
  /-- The template is the last value of its field. -/
  template : LastBinding fields Tree.textField (.string arm.template)

namespace Tree

/-- These segments lead through groups to this mapping, from which a node is built. -/
inductive Reaches : Nested → List String → List (String × Nested) → Prop where
  /-- No segments lead to the mapping itself. -/
  | here (entries : List (String × Nested)) : Reaches (.mapping entries) [] entries
  /-- A segment leads to the value under it in a group, and the others lead on from there. -/
  | child {entries inner : List (String × Nested)} {segment : String} {value : Nested}
      {way : List String} (h : isConditional entries = false) (hchild : (segment, value) ∈ entries)
      (hbelow : Reaches value way inner) : Reaches (.mapping entries) (segment :: way) inner

variable {entries fields arms : List (String × Nested)} {items : List Nested} {value : Nested}
  {path way : List String} {segment : String} {node : Node} {root built b : Branch}

/-- A step that is followed by others succeeds only if it does and they do. -/
theorem exists_of_bind_eq_ok {ε α β : Type} {x : Except ε α} {f : α → Except ε β} {result : β}
    (h : x >>= f = .ok result) : ∃ a, x = .ok a ∧ f a = .ok result := by
  cases x with
  | error e => cases h
  | ok a => exact ⟨a, rfl, h⟩

/-- The last step of a run takes what the earlier ones left. -/
theorem exists_of_foldlM_concat {ε α β : Type} {f : β → α → Except ε β} {xs : List α} {x : α}
    {start result : β} (h : (xs ++ [x]).foldlM f start = .ok result) :
    ∃ before, xs.foldlM f start = .ok before ∧ f before x = .ok result := by
  rw [List.foldlM_append] at h
  obtain ⟨before, hbefore, hlast⟩ := exists_of_bind_eq_ok h
  rw [List.foldlM_cons] at hlast
  obtain ⟨after, hafter, hend⟩ := exists_of_bind_eq_ok hlast
  cases hend
  exact ⟨before, hbefore, hafter⟩

/-! ### Arms -/

/-- A field that is taken is one of the two, and its value is a text. -/
theorem takeField_eq_ok {i : Nat} {known next : ArmFields} {field : String}
    (h : takeField i known (field, value) = .ok next) :
    ∃ text, value = .string text ∧
      (field = whenField ∧ next = { known with condition := some text } ∨
        field = textField ∧ next = { known with template := some text }) := by
  unfold takeField at h
  dsimp only at h
  by_cases hfield : field = whenField ∨ field = textField
  · rw [if_pos hfield] at h
    cases value with
    | string text =>
      refine ⟨text, rfl, ?_⟩
      dsimp only at h
      by_cases hwhen : field = whenField
      · rw [if_pos hwhen] at h
        exact Or.inl ⟨hwhen, (Except.ok.inj h).symm⟩
      · rw [if_neg hwhen] at h
        exact Or.inr ⟨hfield.resolve_left hwhen, (Except.ok.inj h).symm⟩
    | _ => cases h
  · rw [if_neg hfield] at h
    cases h

/-- The fields of an arm are the last values of their names. -/
theorem lastBinding_of_takeField {i : Nat} {known : ArmFields}
    (h : fields.foldlM (takeField i) {} = .ok known) :
    (∀ text, known.condition = some text ↔ LastBinding fields whenField (.string text)) ∧
      ∀ text, known.template = some text ↔ LastBinding fields textField (.string text) := by
  induction fields using List.reverseRecOn generalizing known with
  | nil =>
    cases h
    simp [not_lastBinding_nil]
  | append_singleton fields last ih =>
    obtain ⟨field, value⟩ := last
    obtain ⟨earlier, hearlier, hlast⟩ := exists_of_foldlM_concat h
    obtain ⟨hcondition, htemplate⟩ := ih hearlier
    have hnames : whenField ≠ textField := by decide
    -- The last field sets one of the two, and leaves what was known of the other.
    obtain ⟨text, rfl, ⟨rfl, rfl⟩ | ⟨rfl, rfl⟩⟩ := takeField_eq_ok hlast
    · simp [lastBinding_concat, hnames.symm, htemplate]
    · simp [lastBinding_concat, hnames, hcondition]

/-- Of the fields of an arm the last ones count. -/
theorem countsLast_of_armOfFields {i : Nat} {arm : Arm}
    (h : armOfFields i (.mapping fields) = .ok arm) : arm.CountsLast fields := by
  obtain ⟨known, hknown, hcomplete⟩ := exists_of_bind_eq_ok h
  obtain ⟨hcondition, htemplate⟩ := lastBinding_of_takeField hknown
  split at hcomplete
  · rename_i condition template hc ht
    cases hcomplete
    exact ⟨(hcondition _).mp hc, (htemplate _).mp ht⟩
  · cases hcomplete
  · cases hcomplete

/-- Every item of a sequence of arms is read as an arm. -/
theorem exists_arm_of_mem {found : List Arm} {i : Nat}
    (h : armsOfSequence i items = .ok found) (hitem : value ∈ items) :
    ∃ j, ∃ arm ∈ found, armOfFields j value = .ok arm := by
  induction items generalizing i found with
  | nil => cases hitem
  | cons item items ih =>
    obtain ⟨first, hfirst, hrest⟩ := exists_of_bind_eq_ok h
    obtain ⟨more, hmore, hall⟩ := exists_of_bind_eq_ok hrest
    cases hall
    rcases List.mem_cons.mp hitem with rfl | hlater
    · exact ⟨i, first, List.mem_cons_self, hfirst⟩
    · obtain ⟨j, arm, harm, hread⟩ := ih hmore hlater
      exact ⟨j, arm, List.mem_cons_of_mem first harm, hread⟩

/-- A table of arms repeats no condition, and none that was seen before. -/
theorem nodup_of_armsOfMapping {seen : List String} {i : Nat} {found : List Arm}
    (h : armsOfMapping seen i arms = .ok found) :
    (arms.map Prod.fst).Nodup ∧ ∀ condition ∈ arms.map Prod.fst, condition ∉ seen := by
  induction arms generalizing seen i found with
  | nil => simp
  | cons arm arms ih =>
    obtain ⟨condition, value⟩ := arm
    rw [armsOfMapping.eq_def] at h
    dsimp only at h
    split at h
    · cases h
    · rename_i hnew
      split at h
      · obtain ⟨more, hmore, -⟩ := exists_of_bind_eq_ok h
        obtain ⟨hnodup, hseen⟩ := ih hmore
        rw [List.map_cons]
        refine ⟨List.nodup_cons.mpr ⟨?_, hnodup⟩, ?_⟩
        · intro hmem
          exact hseen condition hmem List.mem_cons_self
        · intro name hname
          rcases List.mem_cons.mp hname with rfl | hlater
          · simpa using hnew
          · exact fun hmem => hseen name hlater (List.mem_cons_of_mem condition hmem)
      · cases h

/-! ### Conditionals -/

/-- An entry of a conditional that is taken holds its arms or its default. -/
theorem takeConditionalEntry_eq_ok {c next : Conditional} {key : String}
    (h : takeConditionalEntry c (key, value) = .ok next) :
    (key = conditionalKey ∧ armsOf value = .ok next.arms ∧ next.otherwise = c.otherwise) ∨
      ∃ template, key = defaultKey ∧ value = .string template ∧
        next = { c with otherwise := some template } := by
  unfold takeConditionalEntry at h
  dsimp only at h
  by_cases harms : key = conditionalKey
  · rw [if_pos harms] at h
    obtain ⟨arms, hread, hnext⟩ := exists_of_bind_eq_ok h
    cases hnext
    exact Or.inl ⟨harms, hread, rfl⟩
  rw [if_neg harms] at h
  by_cases hdefault : key = defaultKey
  · rw [if_pos hdefault] at h
    cases value with
    | string template => exact Or.inr ⟨template, hdefault, rfl, (Except.ok.inj h).symm⟩
    | _ => cases h
  · rw [if_neg hdefault] at h
    cases h

/-- All values of the key for arms can be read as arms. -/
theorem exists_arms_of_conditionalOf {c : Conditional} (h : conditionalOf entries = .ok c)
    (hmem : (conditionalKey, value) ∈ entries) : ∃ arms, armsOf value = .ok arms := by
  induction entries using List.reverseRecOn generalizing c with
  | nil => cases hmem
  | append_singleton entries last ih =>
    obtain ⟨earlier, hearlier, hlast⟩ := exists_of_foldlM_concat h
    rcases List.mem_append.mp hmem with hbefore | hhere
    · exact ih hearlier hbefore
    · rw [← List.mem_singleton.mp hhere] at hlast
      rcases takeConditionalEntry_eq_ok hlast with ⟨-, hread, -⟩ | ⟨_, hkey, -⟩
      · exact ⟨_, hread⟩
      · exact absurd hkey (by decide)

/-- Of the entries of a conditional the last ones count. -/
theorem countsLast_of_conditionalOf {c : Conditional} (h : conditionalOf entries = .ok c) :
    c.CountsLast entries := by
  induction entries using List.reverseRecOn generalizing c with
  | nil =>
    cases h
    exact ⟨fun _ hlast => absurd hlast not_lastBinding_nil, by simp [not_lastBinding_nil]⟩
  | append_singleton entries last ih =>
    obtain ⟨key, value⟩ := last
    obtain ⟨earlier, hearlier, hlast⟩ := exists_of_foldlM_concat h
    obtain ⟨harms, hotherwise⟩ := ih hearlier
    have hkeys : conditionalKey ≠ defaultKey := by decide
    -- The last entry sets the arms or the default, and leaves the other as it was.
    rcases takeConditionalEntry_eq_ok hlast with ⟨rfl, hread, hsame⟩ | ⟨template, rfl, rfl, rfl⟩
    · constructor
      · intro other hother
        rw [lastBinding_concat, if_pos rfl] at hother
        rwa [← hother]
      · simp [lastBinding_concat, hkeys.symm, hsame, hotherwise]
    · constructor
      · intro other hother
        rw [lastBinding_concat, if_neg hkeys] at hother
        exact harms other hother
      · simp [lastBinding_concat]

/-! ### Nodes -/

/-- The children that are built are new and have distinct segments, and the earlier ones stay. -/
theorem nodup_of_childrenOf (h : childrenOf path built entries = .ok b) :
    (entries.map Prod.fst).Nodup ∧ (∀ name ∈ entries.map Prod.fst, name ∉ built.segments) ∧
      built ⊆ b := by
  induction entries generalizing built with
  | nil =>
    cases h
    simp
  | cons child entries ih =>
    obtain ⟨segment, value⟩ := child
    obtain ⟨-, hnew, node, -, hrest⟩ := exists_child_of_childrenOf_cons h
    obtain ⟨hnodup, hunused, hkept⟩ := ih hrest
    rw [Branch.segments, List.map_append] at hunused
    refine ⟨?_, ?_, ?_⟩
    · rw [List.map_cons]
      refine List.nodup_cons.mpr ⟨?_, hnodup⟩
      intro hmem
      exact hunused segment hmem (List.mem_append_right _ (List.mem_singleton_self segment))
    · intro name hname
      rcases List.mem_cons.mp hname with rfl | hlater
      · exact hnew
      · exact fun hmem => hunused name hlater (List.mem_append_left _ hmem)
    · exact fun child hchild => hkept (List.mem_append_left _ hchild)

/-- Every value of a group is built as a child of it. -/
theorem exists_child_of_childrenOf (h : childrenOf path built entries = .ok b)
    (hchild : (segment, value) ∈ entries) :
    ∃ node, (segment, node) ∈ b ∧ nodeOf (path ++ [segment]) value = .ok node := by
  induction entries generalizing built with
  | nil => cases hchild
  | cons child entries ih =>
    obtain ⟨name, first⟩ := child
    obtain ⟨-, -, node, hnode, hrest⟩ := exists_child_of_childrenOf_cons h
    rcases List.mem_cons.mp hchild with heq | hlater
    · cases heq
      -- The child that is built first stays when the others are built.
      have hkept := (nodup_of_childrenOf hrest).2.2
      exact ⟨node, hkept (List.mem_append_right _ (List.mem_singleton_self _)), hnode⟩
    · exact ih hrest hlater

/-- A mapping that is reached is built, and what is built from it is found at the same way. -/
theorem exists_target_of_reaches (hreaches : Reaches value way entries)
    (h : nodeOf path value = .ok node) :
    ∃ place target, nodeOf place (.mapping entries) = .ok target ∧ node.at? way = some target := by
  -- By induction on the way, which passes through children that are built.
  induction hreaches generalizing path node with
  | here entries => exact ⟨path, node, h, rfl⟩
  | child hkind hchild _ ih =>
    obtain ⟨b, rfl, hchildren⟩ := exists_branch_of_nodeOf h hkind
    obtain ⟨below, hmem, hnode⟩ := exists_child_of_childrenOf hchildren hchild
    obtain ⟨place, target, hbuilt, htarget⟩ := ih hnode
    have hget := (wellNamed_of_childrenOf hchildren trivial).get?_eq_some hmem
    refine ⟨place, target, hbuilt, ?_⟩
    rw [Node.at?_branch_cons, hget]
    exact htarget

/-- The fields of an arm in a sequence of arms count last, and if the sequence itself counts, then
the arm is one of the conditional. -/
theorem exists_countsLast_of_mem {c : Conditional} (h : conditionalOf entries = .ok c)
    (harms : (conditionalKey, .sequence items) ∈ entries) (hitem : .mapping fields ∈ items) :
    ∃ arm : Arm, arm.CountsLast fields ∧
      (LastBinding entries conditionalKey (.sequence items) → arm ∈ c.arms) := by
  obtain ⟨found, hfound⟩ := exists_arms_of_conditionalOf h harms
  obtain ⟨i, arm, hmem, harm⟩ := exists_arm_of_mem hfound hitem
  refine ⟨arm, countsLast_of_armOfFields harm, ?_⟩
  intro hlast
  have hcounts := (countsLast_of_conditionalOf h).arms _ hlast
  rw [hfound] at hcounts
  cases hcounts
  exact hmem

/-- Whenever a tree is built, the groups and the tables of arms that it is built from repeat no key.
Conditionals and fields of arms may do so: the entry that is found in the tree has the last value of
each key of its mapping, and an arm has the last value of each of its fields. -/
theorem build_counts_last (h : build value = .ok root) (hreaches : Reaches value way entries) :
    (isConditional entries = false → (entries.map Prod.fst).Nodup) ∧
      (isConditional entries = true →
        ∃ c, (Node.branch root).at? way = some (.conditional c) ∧ c.CountsLast entries ∧
          (∀ arms, (conditionalKey, .mapping arms) ∈ entries → (arms.map Prod.fst).Nodup) ∧
          ∀ items fields, (conditionalKey, .sequence items) ∈ entries → .mapping fields ∈ items →
            ∃ arm : Arm, arm.CountsLast fields ∧
              (LastBinding entries conditionalKey (.sequence items) → arm ∈ c.arms)) := by
  obtain ⟨place, target, hbuilt, htarget⟩ := exists_target_of_reaches hreaches (nodeOf_of_build h)
  constructor
  · intro hkind
    obtain ⟨b, -, hchildren⟩ := exists_branch_of_nodeOf hbuilt hkind
    exact (nodup_of_childrenOf hchildren).1
  · intro hkind
    obtain ⟨c, rfl, hread⟩ := exists_conditional_of_nodeOf hbuilt hkind
    refine ⟨c, htarget, countsLast_of_conditionalOf hread, ?_, ?_⟩
    · intro arms harms
      obtain ⟨found, hfound⟩ := exists_arms_of_conditionalOf hread harms
      exact (nodup_of_armsOfMapping hfound).1
    · intro items fields harms hitem
      exact exists_countsLast_of_mem hread harms hitem

/-- The fields of an arm, each of them written twice. -/
def repeatedFields (lostCondition lostTemplate : String) : List (String × Nested) :=
  [(whenField, .string lostCondition), (textField, .string lostTemplate),
    (whenField, .string "n == 1"), (textField, .string "one file")]

/-- An entry with this arm, whose default is written twice. -/
def repeatedEntry (lostDefault lostCondition lostTemplate : String) : List (String × Nested) :=
  [(conditionalKey, .sequence [.mapping (repeatedFields lostCondition lostTemplate)]),
    (defaultKey, .string lostDefault), (defaultKey, .string "many files")]

/-- A nested value with only this entry. -/
def repeatedTree (lostDefault lostCondition lostTemplate : String) : Nested :=
  .mapping [("files", .mapping (repeatedEntry lostDefault lostCondition lostTemplate))]

theorem build_counts_last_repeated :
    build (repeatedTree "files" "n == 0" "no file") =
        .ok [("files", .conditional ⟨[⟨"n == 1", "one file"⟩], some "many files"⟩)] ∧
      Reaches (repeatedTree "files" "n == 0" "no file") ["files"]
        (repeatedEntry "files" "n == 0" "no file") ∧
      ∃ c : Conditional, c.CountsLast (repeatedEntry "files" "n == 0" "no file") ∧
        ∃ arm ∈ c.arms, arm.CountsLast (repeatedFields "n == 0" "no file") := by
  have hbuild : build (repeatedTree "files" "n == 0" "no file") =
      .ok [("files", .conditional ⟨[⟨"n == 1", "one file"⟩], some "many files"⟩)] := rfl
  have hreaches : Reaches (repeatedTree "files" "n == 0" "no file") ["files"]
      (repeatedEntry "files" "n == 0" "no file") :=
    .child rfl List.mem_cons_self (.here _)
  obtain ⟨c, -, hlast, -, harms⟩ := (build_counts_last hbuild hreaches).2 rfl
  obtain ⟨arm, harm, hcounts⟩ := harms _ _ List.mem_cons_self (List.mem_singleton_self _)
  have honly : conditionalKey ∉ [defaultKey, defaultKey] := by decide
  exact ⟨hbuild, hreaches, c, hlast, arm, hcounts ⟨[], _, rfl, honly⟩, harm⟩

/-- A default and an arm can be lost: here a tree is built from a conditional and from the fields of
an arm that repeat keys, and the texts that come first make no difference. -/
theorem repeats_lose_text :
    (∃ root, build (repeatedTree "files" "n == 0" "no file") = .ok root ∧
      build (repeatedTree "" "" "") = .ok root) ∧
    Reaches (repeatedTree "files" "n == 0" "no file") ["files"]
      (repeatedEntry "files" "n == 0" "no file") ∧
    ¬ ((repeatedEntry "files" "n == 0" "no file").map Prod.fst).Nodup ∧
    ¬ ((repeatedFields "n == 0" "no file").map Prod.fst).Nodup :=
  ⟨⟨_, rfl, rfl⟩, .child rfl List.mem_cons_self (.here _), by decide, by decide⟩

end Tree

end Phrasebook

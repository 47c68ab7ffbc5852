import Phrasebook.Lint
import Phrasebook.Proofs.Tree.Entries

/-!
# What the check finds

The check walks every tree and reads every condition and template. Its issues are the defects of the
entries, each with the key and the locale of its entry.

* `Lint.branchIssues_eq_flatMap`: the issues of a tree are the defects of its entries;
* `Lint.mem_check_of_walk`: the defects of an entry are issues of its catalog;
* `Lint.mem_conditionalDefects_iff`: what is a defect of a conditional.
-/

namespace Phrasebook

namespace Lint

open Condition

/-! ### Issues of entries -/

/-- The defects of an entry. -/
def entryDefects : Node → List Defect
  | .leaf template => templateDefects none template
  | .conditional entry => conditionalDefects entry
  | .branch _ => []

mutual

/-- The issues of a node are the defects of its entries. -/
theorem nodeIssues_eq_flatMap (locale : String) (path : List String) : (node : Node) →
    nodeIssues locale path node =
      (node.entriesAt path).flatMap fun entry =>
        (entryDefects entry.2).map (⟨locale, Key.join entry.1, ·⟩)
  | .leaf _ => by simp [nodeIssues, Node.entriesAt, entryDefects]
  | .conditional _ => by simp [nodeIssues, Node.entriesAt, entryDefects]
  | .branch children => by
    rw [nodeIssues, Node.entriesAt]
    exact branchIssues_eq_flatMap locale path children

/-- The issues of a group are the defects of its entries. -/
theorem branchIssues_eq_flatMap (locale : String) (path : List String) :
    (b : List (String × Node)) →
    branchIssues locale path b =
      (Branch.entriesBelow path b).flatMap fun entry =>
        (entryDefects entry.2).map (⟨locale, Key.join entry.1, ·⟩)
  | [] => rfl
  | (segment, node) :: rest => by
    rw [branchIssues, Branch.entriesBelow, List.flatMap_append, nodeIssues_eq_flatMap,
      branchIssues_eq_flatMap locale path rest]

end

/-- The defects of an entry are issues of its catalog. -/
theorem mem_check_of_walk {c : Catalog} {key locale : String} {root : Branch}
    {segments : List String} {node : Node} {defect : Defect} (hroot : c.root? locale = some root)
    (hsplit : Key.split key = .ok segments) (hwalk : Tree.walk [] root segments = .ok node)
    (hdefect : defect ∈ entryDefects node) :
    ⟨locale, key, defect⟩ ∈ check c := by
  -- The key is the one that the check spells, since its segments join to it.
  obtain ⟨-, -, rfl⟩ := Key.split_eq_ok_iff.mp hsplit
  obtain ⟨before, after, hlocales, -⟩ := List.lookup_eq_some_iff.mp hroot
  refine List.mem_flatMap.mpr ⟨(locale, root), by rw [hlocales]; simp, ?_⟩
  dsimp only
  rw [branchIssues_eq_flatMap]
  refine List.mem_flatMap.mpr ⟨_, Branch.mem_entriesBelow_of_walk hwalk [], ?_⟩
  exact List.mem_map.mpr ⟨defect, hdefect, rfl⟩

/-! ### Defects of conditionals -/

/-- The defects of an arm are defects of the arms. -/
theorem mem_armDefects {arms : List Arm} {i n : Nat} {arm : Arm} (h : arms[i]? = some arm)
    {defect : Defect}
    (hdefect : defect ∈ conditionDefects (n + i) arm.condition ∨
      defect ∈ templateDefects (some (n + i)) arm.template) :
    defect ∈ armDefects n arms := by
  -- By induction on the arms, where the number `n` of the first one grows as `i` falls.
  induction arms generalizing i n with
  | nil => cases h
  | cons first rest ih =>
    rw [armDefects, List.mem_append, List.mem_append]
    cases i with
    | zero =>
      cases h
      exact Or.inl hdefect
    | succ i =>
      rw [Nat.add_succ, ← Nat.succ_add] at hdefect
      exact Or.inr (ih h hdefect)

/-- A defect of arms is one of the condition or of the template of an arm. -/
theorem exists_of_mem_armDefects {arms : List Arm} {n : Nat} {defect : Defect}
    (h : defect ∈ armDefects n arms) :
    ∃ i arm, arms[i]? = some arm ∧
      (defect ∈ conditionDefects (n + i) arm.condition ∨
        defect ∈ templateDefects (some (n + i)) arm.template) := by
  -- By induction on the arms, where the number `n` of the first one grows as `i` falls.
  induction arms generalizing n with
  | nil => cases h
  | cons first rest ih =>
    rw [armDefects, List.mem_append, List.mem_append] at h
    rcases h with hfirst | hrest
    · exact ⟨0, first, rfl, hfirst⟩
    · obtain ⟨i, arm, harm, hdefect⟩ := ih hrest
      rw [Nat.succ_add, ← Nat.add_succ] at hdefect
      exact ⟨i + 1, arm, harm, hdefect⟩

theorem mem_conditionDefects_iff {defect : Defect} {arm : Nat} {source : String} :
    defect ∈ conditionDefects arm source ↔
      ∃ fault, compile source = .error fault ∧ defect = .condition arm fault := by
  rw [conditionDefects]
  cases compile source <;> simp

/-- A condition that cannot be read is a defect. -/
theorem mem_conditionDefects {source : String} {fault : Fault}
    (h : compile source = .error fault) (arm : Nat) :
    .condition arm fault ∈ conditionDefects arm source :=
  mem_conditionDefects_iff.mpr ⟨fault, h, rfl⟩

theorem mem_templateDefects_iff {defect : Defect} {arm : Option Nat} {template : String} :
    defect ∈ templateDefects arm template ↔
      ∃ offset, Template.read template = .error offset ∧
        defect = .template arm template offset := by
  rw [templateDefects]
  cases Template.read template <;> simp

/-- A template that cannot be read is a defect. -/
theorem mem_templateDefects {template : String} {offset : Nat}
    (h : Template.read template = .error offset) (arm : Option Nat) :
    .template arm template offset ∈ templateDefects arm template :=
  mem_templateDefects_iff.mpr ⟨offset, h, rfl⟩

/-- What is wrong with a conditional. -/
inductive Found (entry : Conditional) : Defect → Prop where
  /-- The condition of an arm cannot be read. -/
  | condition {i : Nat} {arm : Arm} {fault : Fault} (harm : entry.arms[i]? = some arm)
      (hcompile : compile arm.condition = .error fault) : Found entry (.condition i fault)
  /-- The template of an arm cannot be read. -/
  | arm {i : Nat} {arm : Arm} {offset : Nat} (harm : entry.arms[i]? = some arm)
      (hread : Template.read arm.template = .error offset) :
      Found entry (.template (some i) arm.template offset)
  /-- The default cannot be read. -/
  | otherwise {template : String} {offset : Nat} (hdefault : entry.otherwise = some template)
      (hread : Template.read template = .error offset) :
      Found entry (.template none template offset)
  /-- There are no arms. -/
  | noArms (hnone : entry.arms = []) : Found entry .noArms
  /-- There are arms and no default, and the last arm is not written so that it always applies. -/
  | noDefault (hnone : entry.otherwise = none) (hne : entry.arms ≠ [])
      (hlast : endsInTrue entry.arms = false) : Found entry .noDefault

/-- What is wrong with a conditional is a defect of it. -/
theorem Found.mem {entry : Conditional} {defect : Defect} (h : Found entry defect) :
    defect ∈ conditionalDefects entry := by
  have harms : ∀ {i arm}, entry.arms[i]? = some arm →
      (defect ∈ conditionDefects i arm.condition ∨
        defect ∈ templateDefects (some i) arm.template) → defect ∈ conditionalDefects entry := by
    intro i arm harm hdefect
    rw [← Nat.zero_add i] at hdefect
    exact List.mem_append_left _ (List.mem_append_right _ (mem_armDefects harm hdefect))
  cases h with
  | condition harm hcompile => exact harms harm (Or.inl (mem_conditionDefects hcompile _))
  | arm harm hread => exact harms harm (Or.inr (mem_templateDefects hread _))
  | otherwise hdefault hread =>
    refine List.mem_append_right _ ?_
    rw [defaultDefects, hdefault]
    exact mem_templateDefects hread none
  | noArms hnone => simp [conditionalDefects, hnone]
  | noDefault hnone hne hlast =>
    exact List.mem_append_right _ (by simp [defaultDefects, hnone, hne, hlast])

/-- The defects of a conditional are what is wrong with it. -/
theorem found_of_mem {entry : Conditional} {defect : Defect} (h : defect ∈ conditionalDefects entry) :
    Found entry defect := by
  rcases List.mem_append.mp h with hrest | hdefault
  · rcases List.mem_append.mp hrest with hnone | harms
    · split at hnone
      · rename_i hempty
        rw [List.mem_singleton.mp hnone]
        exact .noArms (List.isEmpty_iff.mp hempty)
      · cases hnone
    · obtain ⟨i, arm, harm, hdefect⟩ := exists_of_mem_armDefects harms
      rw [Nat.zero_add] at hdefect
      rcases hdefect with hcondition | htemplate
      · obtain ⟨fault, hcompile, rfl⟩ := mem_conditionDefects_iff.mp hcondition
        exact .condition harm hcompile
      · obtain ⟨offset, hread, rfl⟩ := mem_templateDefects_iff.mp htemplate
        exact .arm harm hread
  · rw [defaultDefects] at hdefault
    split at hdefault
    · rename_i hotherwise
      obtain ⟨offset, hread, rfl⟩ := mem_templateDefects_iff.mp hdefault
      exact .otherwise hotherwise hread
    · rename_i hotherwise
      split at hdefault
      · cases hdefault
      · rename_i hend
        rw [Bool.not_eq_true, Bool.or_eq_false_iff] at hend
        rw [List.mem_singleton.mp hdefault]
        exact .noDefault hotherwise (by simpa using hend.1) hend.2

theorem mem_conditionalDefects_iff {entry : Conditional} {defect : Defect} :
    defect ∈ conditionalDefects entry ↔ Found entry defect :=
  ⟨found_of_mem, Found.mem⟩

end Lint

end Phrasebook

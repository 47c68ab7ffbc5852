import Phrasebook.Proofs.Lint.Alarms

/-!
# What a check predicts

The check walks every tree and reads every condition and template; a request walks to one entry and
reads what it needs. Whatever makes a request fail for another reason than its parameters, the check
lists for the same entry.

* `Predicts defects failure`: the defects of an entry account for a failure;
* `predicts_of_walk`: the defects of an entry account for every failure of a request for its key.
-/

namespace Phrasebook

namespace Lint

/-- The defects of an entry account for a failure: they hold the condition or the template that it
names, or the entry has no default. A failure that is about parameters needs no defect, and a
missing key is no failure of an entry. -/
def Predicts (defects : List Defect) : Failure → Prop
  | .conditionFault fault => ∃ arm, .condition arm fault ∈ defects
  | .malformedTemplate template offset => ∃ arm, .template arm template offset ∈ defects
  | .noMatchingArm _ _ => .noDefault ∈ defects ∨ .noArms ∈ defects
  | .unresolvedParameter _ => True
  | .typeMismatch _ _ => True
  | .missingKey _ _ _ => False
  | .invalidKey _ _ => False

/-- Failures that are about parameters need no defect. -/
theorem predicts_of_isParameterFailure {f : Failure} (h : f.isParameterFailure = true)
    (defects : List Defect) :
    Predicts defects f := by
  cases f with
  | unresolvedParameter name => trivial
  | typeMismatch role kinds => trivial
  | _ => cases h

/-- A defect accounts for the failure that a request meets there. -/
theorem predicts_failure {defect : Defect} {defects : List Defect} (h : defect ∈ defects)
    (key locale : String) : Predicts defects (defect.failure key locale) := by
  cases defect with
  | condition arm fault => exact ⟨arm, h⟩
  | template arm template offset => exact ⟨arm, h⟩
  | noArms => exact Or.inr h
  | noDefault => exact Or.inl h

/-- The defects of an entry account for every failure of a request for its key. -/
theorem predicts_of_walk {c : Catalog} {escape : EscapeSet} {key locale : String} {params : Params}
    {f : Failure} {root : Branch} {segments : List String} {node : Node}
    (hroot : c.root? locale = some root) (hsplit : Key.split key = .ok segments)
    (hwalk : Tree.walk [] root segments = .ok node)
    (h : c.plainIn escape key locale params = .error f) :
    Predicts (entryDefects node) f := by
  rw [Catalog.plainIn_eq_answer (Catalog.nodeFor_eq_ok hroot hsplit hwalk)] at h
  cases hparams : f.isParameterFailure with
  | true => exact predicts_of_isParameterFailure hparams _
  | false =>
    obtain ⟨defect, hmeets, rfl⟩ := exists_meets (Branch.isEntry_of_walk hwalk) h hparams
    exact predicts_failure hmeets.mem_entryDefects key locale

/-- A failure that is not about the key itself is one of an entry. -/
theorem exists_walk_of_plainIn {c : Catalog} {escape : EscapeSet} {key locale : String}
    {params : Params} {f : Failure} (h : c.plainIn escape key locale params = .error f)
    (hlookup : f.isLookupFailure = false) :
    ∃ root segments node, c.root? locale = some root ∧ Key.split key = .ok segments ∧
      Tree.walk [] root segments = .ok node := by
  -- Until a walk ends well, every failure is about the key itself.
  rw [Catalog.plainIn, Catalog.plainTemplate] at h
  cases hsplit : Key.split key with
  | error fault =>
    rw [hsplit] at h
    cases h
    cases hlookup
  | ok segments =>
    rw [hsplit] at h
    dsimp only at h
    cases hroot : c.root? locale with
    | none =>
      rw [hroot] at h
      cases h
      cases hlookup
    | some root =>
      rw [hroot] at h
      dsimp only at h
      cases hwalk : Tree.walk [] root segments with
      | error suggestions =>
        rw [hwalk] at h
        cases h
        cases hlookup
      | ok node => exact ⟨root, segments, node, rfl, rfl, hwalk⟩

/-- What defects account for is no failure of the key itself. -/
theorem Predicts.isLookupFailure {defects : List Defect} {f : Failure} (h : Predicts defects f) :
    f.isLookupFailure = false := by
  cases f <;> first | rfl | cases h

/-- An entry without defects fails for its parameters only. -/
theorem Predicts.exists_of_nil {f : Failure} (h : Predicts [] f) :
    (∃ name, f = .unresolvedParameter name) ∨ (∃ role kinds, f = .typeMismatch role kinds) := by
  cases f with
  | unresolvedParameter name => exact Or.inl ⟨name, rfl⟩
  | typeMismatch role kinds => exact Or.inr ⟨role, kinds, rfl⟩
  | missingKey => cases h
  | invalidKey => cases h
  | noMatchingArm => rcases h with hdefect | hdefect <;> cases hdefect
  | conditionFault fault =>
    obtain ⟨arm, hdefect⟩ := h
    cases hdefect
  | malformedTemplate template offset =>
    obtain ⟨arm, hdefect⟩ := h
    cases hdefect

end Lint

end Phrasebook

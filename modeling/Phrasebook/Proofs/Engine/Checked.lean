import Phrasebook.Proofs.Engine.Run
import Phrasebook.Proofs.Lint.Prediction

/-!
# Checked catalogs

A catalog is checked ahead of use so that requests do not fail for what its authors wrote. In every
engine that operations lead to, a request without a fallback locale fails for nothing but its
parameters and what the check lists.

* `Catalog.Built`: every tree of a catalog comes from nested values;
* `Catalog.Built.isLookupFailure`: in such a catalog no listed key is missing;
* `Engine.Reachable.listed_of_resolve`: the check lists every failure that is not about parameters.
-/

namespace Phrasebook

namespace Catalog

variable {c : Catalog} {locale other : String} {root : Branch}

/-- The tree that was put in the place of a locale's is the one of the locale. -/
theorem root?_withLocale (c : Catalog) (locale : String) (root : Branch) :
    (c.withLocale locale root).root? locale = some root := by
  rw [withLocale, root?, Table.get?_insert, if_pos rfl]

/-- Putting a tree in the place of a locale's leaves the trees of others. -/
theorem root?_withLocale_of_ne (h : other ≠ locale) :
    (c.withLocale locale root).root? other = c.root? other := by
  rw [withLocale, root?, Table.get?_insert, if_neg h, root?]

/-- A locale that was removed has no tree. -/
theorem root?_withoutLocale (c : Catalog) (locale : String) :
    (c.withoutLocale locale).root? locale = none := by
  rw [withoutLocale, root?, Table.get?_erase, if_pos rfl]

/-- Removing a locale leaves the trees of others. -/
theorem root?_withoutLocale_of_ne (h : other ≠ locale) :
    (c.withoutLocale locale).root? other = c.root? other := by
  rw [withoutLocale, root?, Table.get?_erase, if_neg h, root?]

/-- Whether every tree comes from nested values. -/
def Built (c : Catalog) : Prop :=
  ∀ locale root, c.root? locale = some root → root.Built

/-- The catalog without locales has no trees. -/
theorem built_empty : empty.Built := by
  intro locale root hroot
  cases hroot

/-- A tree that comes from nested values may join others. -/
theorem Built.withLocale (h : c.Built) (hroot : root.Built) (locale : String) :
    (c.withLocale locale root).Built := by
  intro other found hfound
  rw [Catalog.withLocale, root?, Table.get?_insert] at hfound
  split at hfound
  · cases hfound
    exact hroot
  · exact h other found hfound

/-- No request for a listed key fails as if the key were missing. -/
theorem Built.isLookupFailure (h : c.Built) {key : String} (hkey : key ∈ c.keys locale)
    {escape : EscapeSet} {params : Params} {f : Failure}
    (hfail : c.plainIn escape key locale params = .error f) :
    f.isLookupFailure = false := by
  rw [keys] at hkey
  split at hkey
  · rename_i root hroot
    obtain ⟨segments, node, hsplit, hwalk⟩ := (h locale root hroot).wellNamed.exists_find hkey
    exact (Lint.predicts_of_walk hroot hsplit hwalk hfail).isLookupFailure
  · cases hkey

/-- Without a fallback locale the answer is that of the locale. -/
theorem plain_none (c : Catalog) (escape : EscapeSet) (key locale : String) (params : Params) :
    c.plain escape key locale none params = c.plainIn escape key locale params := by
  rw [plain, firstAnswer]
  cases c.plainIn escape key locale params with
  | ok text => rfl
  | error first => cases hallows : first.allowsFallback <;> simp [hallows]

end Catalog

/-- A failure under a policy is a failure of the strict answer. -/
theorem Policy.eq_error_of_settle {policy : Policy} {key : String}
    {answer : Except Failure String} {f : Failure} (h : policy.settle key answer = .error f) :
    answer = .error f := by
  cases answer with
  | ok text => cases h
  | error failure =>
    rw [settle] at h
    split at h
    · cases h
    · exact h

namespace Engine

variable {e : Engine}

/-- Loading a value adds its tree to the catalog. -/
theorem catalog_load {value : Nested} {root : Branch} (h : value.toTree = .ok root)
    (locale : String) :
    (e.load locale value).2.catalog = e.catalog.withLocale locale root := by
  rw [load, h]
  rfl

section NoFallback

variable {key locale : String} {params : Params} {strict : Bool}

/-- Whatever the caches hold, a request without a fallback locale has the plain answer of its
locale, as the policy settles it. -/
theorem Reachable.resolve_eq_plainIn (h : e.Reachable) (key locale : String) (params : Params)
    (strict : Bool) :
    (e.resolve key locale params ⟨strict, none⟩).1 =
      (⟨strict, none⟩ : Policy).settle key
        (e.catalog.plainIn e.config.escape key locale params) := by
  rw [(h.faithful.resolve key locale params ⟨strict, none⟩).1, Catalog.plain_none]

/-- Such a request fails as the plain answer does. -/
theorem Reachable.plainIn_eq_error (h : e.Reachable) {failure : Failure}
    (hfail : (e.resolve key locale params ⟨strict, none⟩).1 = .error failure) :
    e.catalog.plainIn e.config.escape key locale params = .error failure := by
  rw [h.resolve_eq_plainIn] at hfail
  exact Policy.eq_error_of_settle hfail

end NoFallback

/-- A request without a fallback locale fails because its key is none of the locale, or issues of
its key account for the failure. -/
theorem Reachable.predicts_of_resolve (h : e.Reachable) (hbuilt : e.catalog.Built)
    {key locale : String} {params : Params} {strict : Bool} {failure : Failure}
    (hfail : (e.resolve key locale params ⟨strict, none⟩).1 = .error failure) :
    (failure.isLookupFailure = true ∧ key ∉ e.catalog.keys locale) ∨
      ∃ defects, Lint.Predicts defects failure ∧
        ∀ defect ∈ defects, ⟨locale, key, defect⟩ ∈ e.validate := by
  have hplain := h.plainIn_eq_error hfail
  cases hlookup : failure.isLookupFailure with
  | true =>
    refine Or.inl ⟨rfl, ?_⟩
    intro hmem
    rw [hbuilt.isLookupFailure hmem hplain] at hlookup
    cases hlookup
  | false =>
    obtain ⟨root, segments, node, hroot, hsplit, hwalk⟩ :=
      Lint.exists_walk_of_plainIn hplain hlookup
    exact Or.inr ⟨Lint.entryDefects node, Lint.predicts_of_walk hroot hsplit hwalk hplain,
      fun defect hdefect => Lint.mem_check_of_walk hroot hsplit hwalk hdefect⟩

/-- Where a request without a fallback locale fails, the check lists the condition or the template
at fault, or the lack of a default, for that locale and key. A key without issues fails for its
parameters only, unless it is no key of the locale. -/
theorem Reachable.listed_of_resolve (h : e.Reachable) (hbuilt : e.catalog.Built)
    {key locale : String} {params : Params} {strict : Bool} {failure : Failure}
    (hfail : (e.resolve key locale params ⟨strict, none⟩).1 = .error failure) :
    (∀ fault, failure = .conditionFault fault →
      ∃ arm, ⟨locale, key, .condition arm fault⟩ ∈ e.validate) ∧
    (∀ template offset, failure = .malformedTemplate template offset →
      ∃ arm, ⟨locale, key, .template arm template offset⟩ ∈ e.validate) ∧
    (∀ key' locale', failure = .noMatchingArm key' locale' →
      ⟨locale, key, .noDefault⟩ ∈ e.validate ∨ ⟨locale, key, .noArms⟩ ∈ e.validate) ∧
    ((∀ issue ∈ e.validate, issue.locale = locale → issue.key ≠ key) →
      (∃ name, failure = .unresolvedParameter name) ∨
      (∃ role kinds, failure = .typeMismatch role kinds) ∨
      (failure.isLookupFailure = true ∧ key ∉ e.catalog.keys locale)) := by
  rcases h.predicts_of_resolve hbuilt hfail with ⟨hlookup, hkey⟩ | ⟨defects, hpredicts, hissues⟩
  · refine ⟨?_, ?_, ?_, fun _ => Or.inr (Or.inr ⟨hlookup, hkey⟩)⟩
    · rintro fault rfl
      cases hlookup
    · rintro template offset rfl
      cases hlookup
    · rintro key' locale' rfl
      cases hlookup
  · refine ⟨?_, ?_, ?_, ?_⟩
    · rintro fault rfl
      obtain ⟨arm, hdefect⟩ := hpredicts
      exact ⟨arm, hissues _ hdefect⟩
    · rintro template offset rfl
      obtain ⟨arm, hdefect⟩ := hpredicts
      exact ⟨arm, hissues _ hdefect⟩
    · rintro key' locale' rfl
      exact hpredicts.imp (hissues _) (hissues _)
    · intro hfree
      -- Every defect would be an issue of the key, so there is none.
      have hdefects : defects = [] :=
        List.eq_nil_iff_forall_not_mem.mpr fun defect hdefect =>
          hfree _ (hissues defect hdefect) rfl rfl
      rw [hdefects] at hpredicts
      exact hpredicts.exists_of_nil.imp_right Or.inl

/-- The tree of a locale whose only entry has an arm with a broken condition. -/
def brokenArm : Nested :=
  .mapping [("stock", .mapping [("$conditional", .mapping [("count >", .string "some")])])]

/-- The engine after that tree was loaded. -/
def brokenEngine : Engine :=
  ((Session.start {} fun _ => 0).run [.load "en" brokenArm]).engine

/-- A condition without its right side is reported where it makes a request fail. -/
theorem listed_of_resolve_brokenArm :
    (brokenEngine.resolve "stock" "en" .empty ⟨true, none⟩).1 =
        .error (.conditionFault ⟨"count >", 7, .missingOperand⟩) ∧
      ∃ arm, ⟨"en", "stock", .condition arm ⟨"count >", 7, .missingOperand⟩⟩ ∈
        brokenEngine.validate := by
  have hreachable : brokenEngine.Reachable := ⟨{}, fun _ => 0, [.load "en" brokenArm], rfl⟩
  have hbuilt : brokenEngine.catalog.Built := by
    have htree : brokenArm.toTree =
        .ok [("stock", .conditional ⟨[⟨"count >", "some"⟩], none⟩)] := rfl
    have hroot : Tree.build brokenArm =
        .ok [("stock", .conditional ⟨[⟨"count >", "some"⟩], none⟩)] := rfl
    have hcatalog : brokenEngine.catalog = Catalog.empty.withLocale "en"
        [("stock", .conditional ⟨[⟨"count >", "some"⟩], none⟩)] :=
      catalog_load htree "en"
    rw [hcatalog]
    exact Catalog.built_empty.withLocale (.build hroot) "en"
  have hfail : (brokenEngine.resolve "stock" "en" .empty ⟨true, none⟩).1 =
      .error (.conditionFault ⟨"count >", 7, .missingOperand⟩) := rfl
  exact ⟨hfail, (hreachable.listed_of_resolve hbuilt hfail).1 _ rfl⟩

end Engine

end Phrasebook

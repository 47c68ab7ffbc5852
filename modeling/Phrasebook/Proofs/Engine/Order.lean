import Phrasebook.Proofs.Engine.Listing
import Phrasebook.Proofs.Table.Bindings

/-!
# Locales in order

An engine keeps two tables by locale, one of the trees and one of the files they came from, with the
locales in increasing order. No operation changes this, as long as the catalogs that are installed
are made by catalog operations. So what an engine holds is known from its look-ups.

* `Catalog.Ordered`: the locales of a catalog are in increasing order;
* `Catalog.Ordered.ext`: such catalogs of one generation are equal if their trees are;
* `Session.ordered_run`, `Session.ordered_paths_run`: runs lead to no others.
-/

namespace Phrasebook

namespace Catalog

variable {c c' : Catalog} {held : List Catalog} {locale : String} {root : Branch}

/-- The locales are in strictly increasing order. -/
def Ordered (c : Catalog) : Prop :=
  c.locales.Ordered

/-- Ordered catalogs of one generation with the same trees are equal. -/
theorem Ordered.ext (h : c.Ordered) (h' : c'.Ordered) (hgeneration : c.generation = c'.generation)
    (hroot : ∀ locale, c.root? locale = c'.root? locale) : c = c' := by
  obtain ⟨locales, generation⟩ := c
  obtain ⟨locales', generation'⟩ := c'
  have hlocales : locales = locales' := Table.Ordered.ext_get? h h' hroot
  exact congr (congrArg Catalog.mk hlocales) hgeneration

/-- A locale of an ordered catalog has the tree that is listed for it. -/
theorem Ordered.root?_eq_some_iff (h : c.Ordered) :
    c.root? locale = some root ↔ (locale, root) ∈ c.locales.entries :=
  Table.Ordered.get?_eq_some_iff h

/-- A catalog that is made from ordered ones is ordered. -/
theorem MadeFrom.ordered (h : c.MadeFrom held) (hheld : ∀ c ∈ held, c.Ordered) : c.Ordered := by
  induction h with
  | given h => exact hheld _ h
  | empty => exact Table.ordered_empty
  | withLocale _ locale _ ih => exact Table.Ordered.insert ih locale _
  | withoutLocale _ locale ih => exact Table.Ordered.erase ih locale

end Catalog

namespace Engine

variable {e next : Engine} {past : List Catalog} {op : Operation} {reply : Reply}

/-- An operation that installs no other catalogs keeps the locales in order. -/
theorem Change.ordered (h : e.Change past op reply next) (hop : op.Supplied)
    (hheld : ∀ c ∈ e.catalog :: past, c.Ordered) : next.catalog.Ordered := by
  have hordered : e.catalog.Ordered := hheld _ List.mem_cons_self
  cases h with
  | refused hloads failure => exact hordered
  | placed hloads root hroot => exact Table.Ordered.insert hordered _ root
  | installed choose => exact (hop (e.catalog :: past)).ordered hheld
  | removed hfound => exact Table.Ordered.erase hordered _
  | absent hmissing => exact hordered
  | kept hwrite hwrote hrefused hcatalog hpaths =>
    rw [hcatalog]
    exact hordered

/-- Loading a locale keeps the remembered files in order. -/
theorem ordered_pathsAfter (h : e.paths.Ordered) (op : Operation) : (e.pathsAfter op).Ordered := by
  cases op with
  | load locale value => exact h.erase locale
  | loadFile files locale path => exact h.insert locale path
  | reload files locale =>
    rw [pathsAfter]
    cases e.paths.get? locale with
    | none => exact h
    | some path => exact h.insert locale path
  | _ => exact h

/-- Every operation keeps the remembered files in order. -/
theorem Change.ordered_paths (h : e.Change past op reply next) (hpaths : e.paths.Ordered) :
    next.paths.Ordered := by
  cases h with
  | refused hloads failure => exact hpaths
  | placed hloads root hroot => exact ordered_pathsAfter hpaths op
  | installed choose => exact Table.ordered_empty
  | removed hfound => exact hpaths.erase _
  | absent hmissing => exact hpaths.erase _
  | kept hwrite hwrote hrefused hcatalog hkept =>
    rw [hkept]
    exact hpaths

end Engine

namespace Session

/-- A run that installs no other catalogs only sees ordered ones. -/
theorem ordered_run (config : Config) (route : Request → Nat) {ops : List Operation}
    (hops : ∀ op ∈ ops, op.Supplied) :
    ∀ c ∈ ((start config route).run ops).held, c.Ordered := by
  refine run_induction (P := fun s => ∀ c ∈ s.held, c.Ordered) ?_ ?_
  · intro c hc
    rw [List.mem_singleton.mp hc]
    exact Table.ordered_empty
  · intro s op hop hheld c hc
    rcases List.mem_cons.mp hc with rfl | hc
    · exact (s.engine.change_perform s.past op).ordered (hops op hop) hheld
    · exact hheld c hc

/-- The files that a run remembers are in the order of their locales. -/
theorem ordered_paths_run (config : Config) (route : Request → Nat) (ops : List Operation) :
    ((start config route).run ops).engine.paths.Ordered := by
  refine run_induction (P := fun s => s.engine.paths.Ordered) Table.ordered_empty ?_
  intro s op _ hpaths
  exact (s.engine.change_perform s.past op).ordered_paths hpaths

end Session

end Phrasebook

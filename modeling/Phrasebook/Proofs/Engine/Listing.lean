import Phrasebook.Proofs.Engine.History
import Phrasebook.Proofs.Tree.Listing

/-!
# Listing the keys of a locale

A catalog lists the keys of a locale, and the same keys are found in its tree one by one. The two agree
in every catalog that operations on engines and catalogs lead to, as long as all trees come from
nested values, since such trees are well named.

* `Catalog.Listed`: the list of a locale agrees with its tree;
* `Catalog.Built.listed`: it does where the trees come from nested values;
* `Session.built_run`: no run leads to other trees;
* `Session.keyCount_run`: a locale has as many keys as the last load of it returned.
-/

namespace Phrasebook

namespace Catalog

variable {c : Catalog} {held : List Catalog} {locale other : String} {root : Branch}

/-- A catalog that catalog operations make from those in `held`. -/
inductive MadeFrom (held : List Catalog) : Catalog → Prop where
  /-- One of the given catalogs. -/
  | given {c : Catalog} (h : c ∈ held) : MadeFrom held c
  /-- The catalog without locales. -/
  | empty : MadeFrom held .empty
  /-- The next catalog, with a tree that comes from nested values for a locale. -/
  | withLocale {c : Catalog} (h : MadeFrom held c) (locale : String) {root : Branch}
      (hroot : root.Built) : MadeFrom held (c.withLocale locale root)
  /-- The next catalog, without a locale. -/
  | withoutLocale {c : Catalog} (h : MadeFrom held c) (locale : String) :
      MadeFrom held (c.withoutLocale locale)

/-- What the list of the keys of a locale has to do with its tree. -/
structure Listed (c : Catalog) (locale : String) : Prop where
  /-- No key is listed twice. -/
  nodup : (c.keys locale).Nodup
  /-- The keys stand in the order of the document. -/
  ordered : ∀ root, c.root? locale = some root →
    (c.keys locale).Pairwise fun key key' => Branch.Before root (Key.parts key) (Key.parts key')
  /-- A key is listed exactly if it is found. -/
  mem_iff : ∀ key, key ∈ c.keys locale ↔
    ∃ root node, c.root? locale = some root ∧ Tree.find root key locale = .ok node
  /-- What is found is the entry that the segments of the key lead to. -/
  find_iff : ∀ root, c.root? locale = some root → ∀ key node,
    (Tree.find root key locale = .ok node ↔
      node.isEntry = true ∧
        ∃ segments, Branch.Leads root segments node ∧ Key.join segments = key)
  /-- The list is as long as the locale has entries. -/
  length_eq : (c.keys locale).length = c.keyCount locale
  /-- The list is as long as the tree has entries. -/
  length_eq_entryCount : ∀ root, c.root? locale = some root →
    (c.keys locale).length = Branch.entryCount root

/-- The list of a locale without a tree is empty. -/
theorem keys_of_root?_eq_none (h : c.root? locale = none) : c.keys locale = [] := by
  rw [keys, h]

/-- The list of a locale is that of its tree. -/
theorem keys_of_root?_eq_some (h : c.root? locale = some root) :
    c.keys locale = Branch.keysBelow [] root := by
  rw [keys, h]

/-- The list of a locale is as long as the locale has entries. -/
theorem length_keys (c : Catalog) (locale : String) :
    (c.keys locale).length = c.keyCount locale := by
  unfold keys keyCount
  cases c.root? locale with
  | none => rfl
  | some root => exact Branch.length_keysBelow [] root

/-- Where the trees come from nested values, the list of a locale agrees with its tree. -/
theorem Built.listed (h : c.Built) (locale : String) : c.Listed locale := by
  cases hroot : c.root? locale with
  | none =>
    have hkeys := keys_of_root?_eq_none hroot
    exact
      { nodup := by simp [hkeys]
        ordered := by simp [hkeys]
        mem_iff := by simp [hkeys, hroot]
        find_iff := by simp [hroot]
        length_eq := c.length_keys locale
        length_eq_entryCount := by simp [hroot] }
  | some root =>
    have hkeys := keys_of_root?_eq_some hroot
    have hnamed : Branch.WellNamed root := (h locale root hroot).wellNamed
    refine
      { nodup := ?_, ordered := ?_, mem_iff := ?_, find_iff := ?_
        length_eq := c.length_keys locale, length_eq_entryCount := ?_ }
    · rw [hkeys]
      exact hnamed.nodup_keysBelow
    · intro root' hroot'
      cases hroot.symm.trans hroot'
      rw [hkeys]
      exact hnamed.pairwise_keysBelow
    · intro key
      rw [hkeys, hnamed.mem_keysBelow_iff locale]
      simp [hroot]
    · intro root' hroot' key node
      cases hroot.symm.trans hroot'
      exact hnamed.find_eq_ok_iff
    · intro root' hroot'
      cases hroot.symm.trans hroot'
      rw [hkeys]
      exact Branch.length_keysBelow [] root

/-! ### Trees that come from nested values -/

/-- Removing a locale leaves trees that come from nested values. -/
theorem Built.withoutLocale (h : c.Built) (locale : String) : (c.withoutLocale locale).Built := by
  intro other root hroot
  rw [Catalog.withoutLocale, root?, Table.get?_erase] at hroot
  split at hroot
  · cases hroot
  · exact h other root hroot

/-- A catalog that is made from such with trees from nested values has such trees. -/
theorem MadeFrom.built (h : c.MadeFrom held) (hheld : ∀ c ∈ held, c.Built) : c.Built := by
  induction h with
  | given h => exact hheld _ h
  | empty => exact built_empty
  | withLocale _ locale hroot ih => exact ih.withLocale hroot locale
  | withoutLocale _ locale ih => exact ih.withoutLocale locale

/-! ### Counting -/

/-- A locale has the entries of the tree that was put in its place. -/
theorem keyCount_withLocale (c : Catalog) (locale : String) (root : Branch) :
    (c.withLocale locale root).keyCount locale = Branch.entryCount root := by
  simp [keyCount, withLocale, root?, Table.get?_insert]

/-- Putting a tree in the place of a locale leaves the entries of others. -/
theorem keyCount_withLocale_of_ne (h : other ≠ locale) :
    (c.withLocale locale root).keyCount other = c.keyCount other := by
  simp [keyCount, withLocale, root?, Table.get?_insert, h]

/-- Removing a locale leaves the entries of others. -/
theorem keyCount_withoutLocale_of_ne (h : other ≠ locale) :
    (c.withoutLocale locale).keyCount other = c.keyCount other := by
  simp [keyCount, withoutLocale, root?, Table.get?_erase, h]

end Catalog

/-- Whether a catalog that an operation installs is made by catalog operations, from trees that come
from nested values. -/
def Operation.Supplied : Operation → Prop
  | .install choose => ∀ held, Catalog.MadeFrom held (choose held)
  | _ => True

/-- Whether an event changes the tree of a locale. -/
def Event.changesTree (locale : String) (event : Event) : Bool :=
  match event.operation, event.reply with
  | .install _, _ => true
  | .unload name, .unloaded found => found && name == locale
  | op, .loaded (.ok _) => op.loads? == some locale
  | _, _ => false

namespace Engine

variable {e next : Engine} {past : List Catalog} {op : Operation} {reply : Reply}
  {locale : String} {file : Option String}

/-- An operation that installs no other trees keeps to trees that come from nested values. -/
theorem Change.built (h : e.Change past op reply next) (hop : op.Supplied)
    (hheld : ∀ c ∈ e.catalog :: past, c.Built) : next.catalog.Built := by
  have hbuilt : e.catalog.Built := hheld _ List.mem_cons_self
  cases h with
  | refused hloads failure => exact hbuilt
  | placed hloads root hroot => exact hbuilt.withLocale (hroot hbuilt) _
  | installed choose => exact (hop (e.catalog :: past)).built hheld
  | removed hfound => exact hbuilt.withoutLocale _
  | absent hmissing => exact hbuilt
  | kept hwrite hwrote hrefused hcatalog hpaths =>
    rw [hcatalog]
    exact hbuilt

/-- After an event that changes the tree of a locale, the number that was returned, if any, is that of
its entries. -/
theorem Change.keyCount_of_changesTree (h : e.Change past op reply next)
    (hchanges : Event.changesTree locale ⟨op, reply, file⟩ = true) {count : Nat}
    (hreply : reply = .loaded (.ok count)) : next.catalog.keyCount locale = count := by
  cases h with
  | refused hop failure => cases hreply
  | @placed _ name hop root hroot =>
    cases hreply
    have hname : name = locale := by
      cases op <;> cases hop <;> simpa [Event.changesTree, Operation.loads?] using hchanges
    subst hname
    exact Catalog.keyCount_withLocale e.catalog name root
  | installed choose => cases hreply
  | removed hfound => cases hreply
  | absent hmissing => cases hreply
  | kept hop hwrote hrefused hcatalog hpaths =>
    subst hreply
    cases hwrote

/-- Other events leave the entries of a locale. -/
theorem Change.keyCount_of_not_changesTree (h : e.Change past op reply next)
    (hchanges : Event.changesTree locale ⟨op, reply, file⟩ = false) :
    next.catalog.keyCount locale = e.catalog.keyCount locale := by
  cases h with
  | refused hop failure => rfl
  | @placed _ name hop root hroot =>
    have hname : name ≠ locale := by
      cases op <;> cases hop <;> simpa [Event.changesTree, Operation.loads?] using hchanges
    exact Catalog.keyCount_withLocale_of_ne (Ne.symm hname)
  | installed choose => simp [Event.changesTree] at hchanges
  | @removed name hfound =>
    have hname : name ≠ locale := by simpa [Event.changesTree] using hchanges
    exact Catalog.keyCount_withoutLocale_of_ne (Ne.symm hname)
  | absent hmissing => rfl
  | kept hop hwrote hrefused hcatalog hpaths => rw [hcatalog]

end Engine

namespace Session

/-- The catalogs that a session has seen, the current one first. -/
def held (s : Session) : List Catalog :=
  s.engine.catalog :: s.past

/-- A run that installs no other trees only sees trees that come from nested values. -/
theorem built_run (config : Config) (route : Request → Nat) {ops : List Operation}
    (hops : ∀ op ∈ ops, op.Supplied) :
    ∀ c ∈ ((start config route).run ops).held, c.Built := by
  refine run_induction (P := fun s => ∀ c ∈ s.held, c.Built) ?_ ?_
  · intro c hc
    rw [List.mem_singleton.mp hc]
    exact Catalog.built_empty
  · intro s op hop hheld c hc
    rcases List.mem_cons.mp hc with rfl | hc
    · exact (s.engine.change_perform s.past op).built (hops op hop) hheld
    · exact hheld c hc

/-- After a run a locale has as many entries as the last event that changed its tree returned, if that
was a load of the locale. -/
theorem keyCount_run (config : Config) (route : Request → Nat) (ops : List Operation)
    {locale : String} {event : Event} {count : Nat}
    (hlast : lastEvent (·.changesTree locale) ((start config route).events ops) = some event)
    (hreply : event.reply = .loaded (.ok count)) :
    ((start config route).run ops).engine.catalog.keyCount locale = count := by
  have hrun := run_lastEvent (fun e => e.catalog.keyCount locale) (·.changesTree locale)
    (fun event keys => ∀ count, event.reply = .loaded (.ok count) → keys = count)
    (fun s op hchanges _ hreply =>
      (s.engine.change_perform s.past op).keyCount_of_changesTree hchanges hreply)
    (fun s op hchanges =>
      (s.engine.change_perform s.past op).keyCount_of_not_changesTree hchanges)
    (start config route) ops
  rw [hlast] at hrun
  exact hrun count hreply

/-- **Listing agrees with finding.** In every catalog that catalog operations make from those that a
run has seen, the list of the keys of a locale agrees with its tree; and the current catalog lists as
many keys for a locale as the last load of it returned. -/
theorem keys_listed (config : Config) (route : Request → Nat) {ops : List Operation}
    (hops : ∀ op ∈ ops, op.Supplied) :
    let s := (start config route).run ops
    (∀ c : Catalog, c.MadeFrom s.held → ∀ locale, c.Listed locale) ∧
      ∀ locale event count,
        lastEvent (·.changesTree locale) ((start config route).events ops) = some event →
        event.reply = .loaded (.ok count) →
        (s.engine.catalog.keys locale).length = count := by
  intro s
  refine ⟨?_, ?_⟩
  · intro c hc locale
    exact (hc.built (built_run config route hops)).listed locale
  · intro locale event count hlast hreply
    rw [Catalog.length_keys]
    exact keyCount_run config route ops hlast hreply

/-- A tree is loaded, and another one with a group in common is laid over it. -/
def shopLoads : List Operation :=
  [.load "en" (.mapping [("menu", .mapping [("open", .string "Open"), ("close", .string "Close")])]),
    .extend "en" (.mapping [("title", .string "Shop"), ("menu", .mapping [("quit", .string "Quit")])])]

/-- The keys of the group that the trees have in common stand together, those of the first tree
before those of the second. -/
theorem keys_listed_shop :
    let s := (start {} fun _ => 0).run shopLoads
    (∀ op ∈ shopLoads, op.Supplied) ∧
      s.engine.catalog.keys "en" = ["menu.open", "menu.close", "menu.quit", "title"] ∧
      s.engine.catalog.Listed "en" ∧
      (s.engine.catalog.keys "en").length = 4 := by
  intro s
  have hops : ∀ op ∈ shopLoads, op.Supplied := by
    intro op hop
    rcases List.mem_cons.mp hop with rfl | hop
    · trivial
    · rw [List.mem_singleton.mp hop]
      trivial
  have hlisted := keys_listed {} (fun _ => 0) hops
  refine ⟨hops, rfl, ?_, ?_⟩
  · exact hlisted.1 s.engine.catalog (.given List.mem_cons_self) "en"
  · exact hlisted.2 "en" _ 4 rfl rfl

end Session

end Phrasebook

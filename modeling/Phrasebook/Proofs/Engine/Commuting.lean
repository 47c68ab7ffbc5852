import Phrasebook.Proofs.Engine.Order
import Phrasebook.Proofs.Engine.Writes

/-!
# Writes to different locales

A write looks at one locale only, at its tree and at the file it came from, and it leaves those of
all others as they are. So two writes to different locales do not get in the way of each other: in
either order each returns the same, and the engines that they lead to are the same.

* `Operation.writes?`: the locale that a write is about;
* `Engine.AgreeOn`: two engines have the same tree and the same file for a locale;
* `Engine.AgreeOn.perform`: they do the same with a write to it;
* `Engine.Change.agreeOn`, `Engine.Change.keepsRest`: a write leaves other locales and the rest;
* `Engine.same_after`: after two writes engines hold the same in either order;
* `Session.writes_commute`: writes to different locales may be performed in either order.
-/

namespace Phrasebook

/-- The locale that an operation writes to. -/
def Operation.writes? : Operation → Option String
  | .unload locale => some locale
  | op => op.loads?

namespace Operation

variable {op : Operation} {locale : String}

/-- To load a locale is to write to it. -/
theorem writes?_of_loads? (h : op.loads? = some locale) : op.writes? = some locale := by
  cases op <;> first | exact h | cases h

/-- A write to a locale installs no catalog. -/
theorem supplied_of_writes? (h : op.writes? = some locale) : op.Supplied := by
  cases op with
  | install choose => cases h
  | _ => trivial

/-- An operation that writes to a locale is a write. -/
theorem isWrite_of_writes? (h : op.writes? = some locale) : op.isWrite = true := by
  cases op <;> first | rfl | cases h

end Operation

/-- Dropping dropped answers drops nothing more. -/
theorem Answers.clear_clear (answers : Answers) : answers.clear.clear = answers.clear := by
  simp [Answers.clear, Recent.clear, Function.comp_def]

namespace Catalog

variable {c c' : Catalog} {locale : String}

/-- The keys of a locale are those of its tree. -/
theorem keys_congr (h : c.root? locale = c'.root? locale) : c.keys locale = c'.keys locale := by
  rw [keys, keys, h]

/-- The answer in a locale is found in its tree. -/
theorem plainIn_congr (h : c.root? locale = c'.root? locale) (escape : EscapeSet) (key : String)
    (params : Params) :
    c.plainIn escape key locale params = c'.plainIn escape key locale params := by
  simp only [plainIn, plainTemplate, h]

/-- The answer in a locale or its fallback is found in their trees. -/
theorem plain_congr (h : c.root? locale = c'.root? locale) {fallback : Option String}
    (hfallback : ∀ other, fallback = some other → c.root? other = c'.root? other)
    (escape : EscapeSet) (key : String) (params : Params) :
    c.plain escape key locale fallback params = c'.plain escape key locale fallback params := by
  unfold plain firstAnswer
  dsimp only
  rw [plainIn_congr h]
  cases hother : fallback.filter (· ≠ locale) with
  | none => rfl
  | some other =>
    have hroot := hfallback other (Option.filter_eq_some_iff.mp hother).1
    dsimp only
    rw [plainIn_congr hroot]

end Catalog

namespace Engine

variable {e e' next : Engine} {past past' : List Catalog} {op a b : Operation} {reply : Reply}
  {locale other : String}

/-! ### What a write looks at -/

/-- Two engines have the same tree for a locale, and remember the same file for it. -/
structure AgreeOn (locale : String) (e e' : Engine) : Prop where
  /-- The trees agree. -/
  root? : e.catalog.root? locale = e'.catalog.root? locale
  /-- The remembered files agree. -/
  path : e.paths.get? locale = e'.paths.get? locale

theorem AgreeOn.symm (h : AgreeOn locale e e') : AgreeOn locale e' e :=
  ⟨h.root?.symm, h.path.symm⟩

theorem AgreeOn.trans {e'' : Engine} (h : AgreeOn locale e e') (h' : AgreeOn locale e' e'') :
    AgreeOn locale e e'' :=
  ⟨h.root?.trans h'.root?, h.path.trans h'.path⟩

/-- Engines agree on a locale after the same tree was put in its place, if the files do. -/
theorem AgreeOn.placed {paths paths' : Table String}
    (hpath : paths.get? locale = paths'.get? locale) (root : Branch) :
    AgreeOn locale ({ e with paths }.swap (e.catalog.withLocale locale root))
      ({ e' with paths := paths' }.swap (e'.catalog.withLocale locale root)) where
  root? :=
    (e.catalog.root?_withLocale locale root).trans (e'.catalog.root?_withLocale locale root).symm
  path := hpath

/-- Loading from a value does the same in both engines. -/
theorem AgreeOn.load (h : AgreeOn locale e e') (value : Nested) :
    (e.load locale value).1 = (e'.load locale value).1 ∧
      AgreeOn locale (e.load locale value).2 (e'.load locale value).2 := by
  unfold Engine.load
  cases value.toTree with
  | error failure => exact ⟨rfl, h⟩
  | ok root =>
    refine ⟨rfl, .placed ?_ root⟩
    rw [Table.get?_erase, Table.get?_erase, if_pos rfl, if_pos rfl]

/-- Extending does the same in both engines. -/
theorem AgreeOn.extend (h : AgreeOn locale e e') (value : Nested) :
    (e.extend locale value).1 = (e'.extend locale value).1 ∧
      AgreeOn locale (e.extend locale value).2 (e'.extend locale value).2 := by
  unfold Engine.extend
  cases value.toTree with
  | error failure => exact ⟨rfl, h⟩
  | ok above =>
    -- The tree that the value is laid over is the same in both.
    rw [h.root?]
    exact ⟨rfl, .placed h.path _⟩

/-- Loading from a file does the same in both engines. -/
theorem AgreeOn.loadFile (h : AgreeOn locale e e') (files : Files) (path : String) :
    (e.loadFile files locale path).1 = (e'.loadFile files locale path).1 ∧
      AgreeOn locale (e.loadFile files locale path).2 (e'.loadFile files locale path).2 := by
  unfold Engine.loadFile
  cases Nested.load files path with
  | error failure => exact ⟨rfl, h⟩
  | ok value =>
    dsimp only
    cases value.toTree with
    | error failure => exact ⟨rfl, h⟩
    | ok root =>
      refine ⟨rfl, .placed ?_ root⟩
      rw [Table.get?_insert, Table.get?_insert, if_pos rfl, if_pos rfl]

/-- Reloading does the same in both engines. -/
theorem AgreeOn.reload (h : AgreeOn locale e e') (files : Files) :
    (e.reload files locale).1 = (e'.reload files locale).1 ∧
      AgreeOn locale (e.reload files locale).2 (e'.reload files locale).2 := by
  unfold Engine.reload
  rw [h.path]
  cases e'.paths.get? locale with
  | none => exact ⟨rfl, h⟩
  | some path => exact h.loadFile files path

/-- Removing the locale does the same in both engines. -/
theorem AgreeOn.unload (h : AgreeOn locale e e') :
    (e.unload locale).1 = (e'.unload locale).1 ∧
      AgreeOn locale (e.unload locale).2 (e'.unload locale).2 := by
  have hfound : e.catalog.hasLocale locale = e'.catalog.hasLocale locale :=
    congrArg Option.isSome h.root?
  have hpath : (e.paths.erase locale).get? locale = (e'.paths.erase locale).get? locale := by
    rw [Table.get?_erase, Table.get?_erase, if_pos rfl, if_pos rfl]
  unfold Engine.unload
  dsimp only
  rw [hfound]
  split
  · refine ⟨rfl, ?_, hpath⟩
    exact (e.catalog.root?_withoutLocale locale).trans (e'.catalog.root?_withoutLocale locale).symm
  · exact ⟨rfl, h.root?, hpath⟩

/-- A write does the same in engines that agree on its locale. -/
theorem AgreeOn.perform (h : AgreeOn locale e e') (hop : op.writes? = some locale)
    (past past' : List Catalog) :
    (e.perform past op).1 = (e'.perform past' op).1 ∧
      AgreeOn locale (e.perform past op).2 (e'.perform past' op).2 := by
  cases op with
  | load name value =>
    cases hop
    exact (h.load value).imp_left (congrArg Reply.loaded)
  | extend name value =>
    cases hop
    exact (h.extend value).imp_left (congrArg Reply.loaded)
  | loadFile files name path =>
    cases hop
    exact (h.loadFile files path).imp_left (congrArg Reply.loaded)
  | reload files name =>
    cases hop
    exact (h.reload files).imp_left (congrArg Reply.loaded)
  | unload name =>
    cases hop
    exact h.unload.imp_left (congrArg Reply.unloaded)
  | _ => cases hop

/-! ### What a write leaves -/

/-- A write leaves the trees and the files of other locales. -/
theorem Change.agreeOn (h : e.Change past op reply next) (hop : op.writes? = some locale)
    (hne : other ≠ locale) : AgreeOn other next e := by
  cases h with
  | refused hloads failure => exact ⟨rfl, rfl⟩
  | placed hloads root hroot =>
    cases hop.symm.trans (Operation.writes?_of_loads? hloads)
    exact ⟨Catalog.root?_withLocale_of_ne hne, get?_pathsAfter_of_ne hloads hne⟩
  | installed choose => cases hop
  | removed hfound =>
    cases hop
    exact ⟨Catalog.root?_withoutLocale_of_ne hne, by simp [swap, Table.get?_erase, hne]⟩
  | absent hmissing =>
    cases hop
    exact ⟨rfl, by simp [Table.get?_erase, hne]⟩
  | kept hkept hwrote hrefused hcatalog hpaths =>
    rw [Operation.isWrite_of_writes? hop] at hkept
    cases hkept

/-- What a write does to the rest of an engine: nothing, but that it drops the kept answers if it
succeeds. -/
structure KeepsRest (e : Engine) (reply : Reply) (next : Engine) : Prop where
  /-- The settings are kept. -/
  config : next.config = e.config
  /-- The conditions are kept. -/
  memo : next.memo = e.memo
  /-- The answers are kept or dropped. -/
  answers : next.answers = if reply.wrote then e.answers.clear else e.answers

theorem Change.keepsRest (h : e.Change past op reply next) (hop : op.writes? = some locale) :
    e.KeepsRest reply next := by
  cases h with
  | refused hloads failure => exact ⟨rfl, rfl, rfl⟩
  | placed hloads root hroot => exact ⟨rfl, rfl, rfl⟩
  | installed choose => cases hop
  | removed hfound => exact ⟨rfl, rfl, rfl⟩
  | absent hmissing => exact ⟨rfl, rfl, rfl⟩
  | kept hkept hwrote hrefused hcatalog hpaths =>
    rw [Operation.isWrite_of_writes? hop] at hkept
    cases hkept

/-! ### Two writes -/

/-- Two engines hold the same, and cannot be told apart by looking anything up. -/
structure Same (e e' : Engine) : Prop where
  /-- The trees and the remembered files of all locales agree. -/
  agreeOn : ∀ locale, AgreeOn locale e e'
  /-- The generations agree. -/
  generation : e.catalog.generation = e'.catalog.generation
  /-- The settings agree. -/
  config : e.config = e'.config
  /-- The kept answers agree, with their order and their counts. -/
  answers : e.answers = e'.answers
  /-- The remembered conditions agree. -/
  memo : e.memo = e'.memo

/-- Engines that hold the same are equal, if their tables are in order. -/
theorem Same.eq (h : e.Same e') (hcatalog : e.catalog.Ordered) (hcatalog' : e'.catalog.Ordered)
    (hpaths : e.paths = e'.paths) : e = e' := by
  have hcatalogs : e.catalog = e'.catalog :=
    hcatalog.ext hcatalog' h.generation fun locale => (h.agreeOn locale).root?
  obtain ⟨config, catalog, paths, answers, memo⟩ := e
  obtain ⟨config', catalog', paths', answers', memo'⟩ := e'
  cases hcatalogs
  cases hpaths
  cases h.config
  cases h.answers
  cases h.memo
  rfl

section Commuting

variable {name : String} (ha : a.writes? = some locale) (hb : b.writes? = some name)
  (hne : locale ≠ name)

include ha hb hne

/-- A write does the same after a write to another locale, which leaves what it has done. -/
theorem agreeOn_after (past past' past'' : List Catalog) :
    ((e.perform past b).2.perform past' a).1 = (e.perform past a).1 ∧
      AgreeOn locale ((e.perform past b).2.perform past' a).2
        ((e.perform past a).2.perform past'' b).2 := by
  have hbefore : AgreeOn locale (e.perform past b).2 e :=
    (e.change_perform past b).agreeOn hb hne
  have hafter : AgreeOn locale ((e.perform past a).2.perform past'' b).2 (e.perform past a).2 :=
    ((e.perform past a).2.change_perform past'' b).agreeOn hb hne
  obtain ⟨hreply, hagree⟩ := hbefore.perform ha past' past
  exact ⟨hreply, hagree.trans hafter.symm⟩

/-- After two writes to different locales engines hold the same in either order. -/
theorem same_after (past past' past'' : List Catalog) :
    ((e.perform past a).2.perform past' b).2.Same ((e.perform past b).2.perform past'' a).2 := by
  obtain ⟨hreply, hagree⟩ := agreeOn_after (e := e) ha hb hne past past'' past'
  obtain ⟨hreply', hagree'⟩ := agreeOn_after (e := e) hb ha hne.symm past past' past''
  have hfirst := e.change_perform past a
  have hfirst' := e.change_perform past b
  have hsecond := (e.perform past a).2.change_perform past' b
  have hsecond' := (e.perform past b).2.change_perform past'' a
  -- Each write returns the same in both orders, so both orders make as many new generations.
  rw [hreply'] at hsecond
  rw [hreply] at hsecond'
  refine ⟨fun other => ?_, ?_, ?_, ?_, ?_⟩
  · by_cases hlocale : other = locale
    · rw [hlocale]
      exact hagree.symm
    · by_cases hname : other = name
      · rw [hname]
        exact hagree'
      · exact (((hsecond.agreeOn hb hname).trans (hfirst.agreeOn ha hlocale)).trans
          (hfirst'.agreeOn hb hname).symm).trans (hsecond'.agreeOn ha hlocale).symm
  · rw [hsecond.generation, hfirst.generation, hsecond'.generation, hfirst'.generation]
    omega
  · rw [(hsecond.keepsRest hb).config, (hfirst.keepsRest ha).config,
      (hsecond'.keepsRest ha).config, (hfirst'.keepsRest hb).config]
  · rw [(hsecond.keepsRest hb).answers, (hfirst.keepsRest ha).answers,
      (hsecond'.keepsRest ha).answers, (hfirst'.keepsRest hb).answers]
    cases (e.perform past a).1.wrote <;> cases (e.perform past b).1.wrote <;>
      simp [Answers.clear_clear]
  · rw [(hsecond.keepsRest hb).memo, (hfirst.keepsRest ha).memo,
      (hsecond'.keepsRest ha).memo, (hfirst'.keepsRest hb).memo]

end Commuting

/-! ### Requests to other locales -/

/-- Faithful engines with the same escape set that agree on the locale of a request, and on its
fallback, give the same answer. -/
theorem AgreeOn.resolve (h : AgreeOn locale e e') (hfaithful : e.Faithful)
    (hfaithful' : e'.Faithful) (hescape : e.config.escape = e'.config.escape) {policy : Policy}
    (hfallback : ∀ other, policy.fallback = some other → AgreeOn other e e') (key : String)
    (params : Params) :
    (e.resolve key locale params policy).1 = (e'.resolve key locale params policy).1 := by
  rw [(hfaithful.resolve key locale params policy).1,
    (hfaithful'.resolve key locale params policy).1, hescape]
  exact congrArg (policy.settle key)
    (Catalog.plain_congr h.root? (fun other hother => (hfallback other hother).root?) _ key params)

/-- What an engine has of a locale when another one was written to: nothing has changed. -/
structure Untouched (e next : Engine) (locale other : String) : Prop where
  /-- The tree is the same. -/
  root? : next.catalog.root? other = e.catalog.root? other
  /-- The list of the keys is the same. -/
  keys : next.catalog.keys other = e.catalog.keys other
  /-- The remembered file is the same. -/
  path : next.paths.get? other = e.paths.get? other
  /-- So are the answers to requests that have no recourse to what was written. -/
  resolve : ∀ key params policy, policy.fallback ≠ some locale →
    (next.resolve key other params policy).1 = (e.resolve key other params policy).1

/-- A write to a locale leaves all others untouched. -/
theorem Faithful.untouched (h : e.Faithful) (ha : a.writes? = some locale) (hne : other ≠ locale)
    (past : List Catalog) : e.Untouched (e.perform past a).2 locale other := by
  have hchange := e.change_perform past a
  have hagree : AgreeOn other (e.perform past a).2 e := hchange.agreeOn ha hne
  refine ⟨hagree.root?, Catalog.keys_congr hagree.root?, hagree.path, ?_⟩
  intro key params policy hfallback
  refine hagree.resolve (h.perform past a) h
    (congrArg Config.escape (hchange.keepsRest ha).config) ?_ key params
  rintro third hthird
  refine hchange.agreeOn ha ?_
  rintro rfl
  exact hfallback hthird

end Engine

namespace Session

variable {a b : Operation} {locale name : String}

/-- Two more operations at the end of a run are two more steps. -/
theorem run_append_pair (s : Session) (ops : List Operation) (a b : Operation) :
    s.run (ops ++ [a, b]) = (((s.run ops).step a).2.step b).2 := by
  rw [run, List.foldl_append]
  rfl

/-- **Writes to different locales commute.** After any run, two writes to different locales, which
may succeed or fail, return the same in either order. The engines hold the same afterwards: the
trees and the remembered files of all locales, the generation, the kept answers with their counts
and the remembered conditions. They are equal, if all catalogs that were installed are made by
catalog operations, so that their locales are in order. And a write leaves every other locale
untouched, with all answers to requests that ask neither first nor as a fallback for the locale that
was written to. -/
theorem writes_commute (config : Config) (route : Request → Nat) (ops : List Operation)
    (ha : a.writes? = some locale) (hb : b.writes? = some name) (hne : locale ≠ name) :
    let s := (start config route).run ops
    let ab := (s.step a).2.step b
    let ba := (s.step b).2.step a
    (ba.1 = (s.step a).1 ∧ ab.1 = (s.step b).1) ∧
      ab.2.engine.Same ba.2.engine ∧ ab.2.engine.paths = ba.2.engine.paths ∧
      ((∀ op ∈ ops, op.Supplied) → ab.2.engine = ba.2.engine) ∧
      ∀ other, other ≠ locale → s.engine.Untouched (s.step a).2.engine locale other := by
  intro s ab ba
  have hsame : ab.2.engine.Same ba.2.engine := Engine.same_after ha hb hne s.past _ _
  -- Either order is the end of a run, whose tables are in order.
  have hab : ab.2 = (start config route).run (ops ++ [a, b]) := (run_append_pair _ ops a b).symm
  have hba : ba.2 = (start config route).run (ops ++ [b, a]) := (run_append_pair _ ops b a).symm
  have hpaths : ab.2.engine.paths = ba.2.engine.paths := by
    refine Table.Ordered.ext_get? ?_ ?_ fun other => (hsame.agreeOn other).path
    · rw [hab]
      exact ordered_paths_run config route _
    · rw [hba]
      exact ordered_paths_run config route _
  refine ⟨⟨?_, ?_⟩, hsame, hpaths, ?_, ?_⟩
  · exact (Engine.agreeOn_after ha hb hne s.past (s.step b).2.past (s.step a).2.past).1
  · exact (Engine.agreeOn_after hb ha hne.symm s.past (s.step a).2.past (s.step b).2.past).1
  · intro hops
    have hsupplied : ∀ op ∈ [a, b], op.Supplied := by
      simp [Operation.supplied_of_writes? ha, Operation.supplied_of_writes? hb]
    refine hsame.eq ?_ ?_ hpaths
    · rw [hab]
      refine ordered_run config route (fun op hop => ?_) _ List.mem_cons_self
      exact (List.mem_append.mp hop).elim (hops op) (hsupplied op)
    · rw [hba]
      refine ordered_run config route (fun op hop => ?_) _ List.mem_cons_self
      refine (List.mem_append.mp hop).elim (hops op) fun hpair => hsupplied op ?_
      simpa [or_comm] using hpair
  · intro other hother
    have hfaithful : s.engine.Faithful := Engine.Reachable.faithful ⟨config, route, ops, rfl⟩
    exact hfaithful.untouched ha hother s.past

/-- Two locales are loaded. -/
def officeLoads : List Operation :=
  [.load "en" (.mapping [("title", .string "Office")]),
    .load "de" (.mapping [("title", .string "Kontor")])]

/-- A value is laid over the first locale. -/
def officeExtend : Operation :=
  .extend "en" (.mapping [("floor", .string "Floor")])

/-- Extending one locale and removing the other lead to the same engine in either order, and the
removed locale makes no difference to the other one. -/
theorem writes_commute_office :
    let s := (start {} fun _ => 0).run officeLoads
    officeExtend.writes? = some "en" ∧ (Operation.unload "de").writes? = some "de" ∧
      ((s.step (.unload "de")).2.step officeExtend).1 = .loaded (.ok 2) ∧
      ((s.step officeExtend).2.step (.unload "de")).1 = .unloaded true ∧
      ((s.step officeExtend).2.step (.unload "de")).2.engine =
        ((s.step (.unload "de")).2.step officeExtend).2.engine ∧
      s.engine.Untouched (s.step officeExtend).2.engine "en" "de" := by
  intro s
  have hops : ∀ op ∈ officeLoads, op.Supplied := by simp [officeLoads, Operation.Supplied]
  have hextend : (s.step officeExtend).1 = .loaded (.ok 2) := rfl
  have hunload : (s.step (.unload "de")).1 = .unloaded true := rfl
  obtain ⟨⟨hsecond, hfirst⟩, -, -, heq, huntouched⟩ :=
    writes_commute {} (fun _ => 0) officeLoads (a := officeExtend) (b := .unload "de") rfl rfl
      (by decide : "en" ≠ "de")
  exact ⟨rfl, rfl, hsecond.trans hextend, hfirst.trans hunload, heq hops,
    huntouched "de" (by decide)⟩

end Session

end Phrasebook

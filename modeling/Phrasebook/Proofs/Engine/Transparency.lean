import Phrasebook.Proofs.Engine.Run

/-!
# The caches are transparent

Two engines whose settings differ in nothing but the sizes of their caches, and that may assign
requests to shards in different ways, cannot be told apart by what their operations return and by
the catalogs they hold. `Engine.Alike` relates two such engines; every operation keeps it and
returns the same on both sides, because each side gives the plain answer.
-/

namespace Phrasebook

namespace Engine

variable {e e' : Engine}

/-- Two engines that agree in everything but their caches. -/
structure Alike (e e' : Engine) : Prop where
  /-- The default locales agree. -/
  defaultLocale : e.config.defaultLocale = e'.config.defaultLocale
  /-- The policies agree. -/
  policy : e.config.policy = e'.config.policy
  /-- The escape sets agree. -/
  escape : e.config.escape = e'.config.escape
  /-- The catalogs agree. -/
  catalog : e.catalog = e'.catalog
  /-- The remembered files agree. -/
  paths : e.paths = e'.paths

/-- Making a catalog the current one keeps two engines alike. -/
theorem Alike.swap (h : e.Alike e') {c c' : Catalog} (hc : c = c') :
    (e.swap c).Alike (e'.swap c') :=
  ⟨h.defaultLocale, h.policy, h.escape, hc, h.paths⟩

/-- Changing the remembered files in the same way keeps two engines alike. -/
theorem Alike.mapPaths (h : e.Alike e') (change : Table String → Table String) :
    { e with paths := change e.paths }.Alike { e' with paths := change e'.paths } :=
  ⟨h.defaultLocale, h.policy, h.escape, h.catalog, congrArg change h.paths⟩

/-- Loading from a value returns the same on both sides. -/
theorem Alike.load (h : e.Alike e') (locale : String) (value : Nested) :
    (e.load locale value).1 = (e'.load locale value).1 ∧
      (e.load locale value).2.Alike (e'.load locale value).2 := by
  unfold Engine.load
  cases value.toTree with
  | error failure => exact ⟨rfl, h⟩
  | ok root =>
    have hcatalog := congrArg (Catalog.withLocale · locale root) h.catalog
    exact ⟨rfl, (h.mapPaths (·.erase locale)).swap hcatalog⟩

/-- Extending returns the same on both sides. -/
theorem Alike.extend (h : e.Alike e') (locale : String) (value : Nested) :
    (e.extend locale value).1 = (e'.extend locale value).1 ∧
      (e.extend locale value).2.Alike (e'.extend locale value).2 := by
  unfold Engine.extend
  cases value.toTree with
  | error failure => exact ⟨rfl, h⟩
  | ok above =>
    -- The tree that the value is laid over is the same on both sides.
    rw [h.catalog]
    exact ⟨rfl, h.swap (congrArg (Catalog.withLocale · locale _) h.catalog)⟩

/-- Loading from a file returns the same on both sides. -/
theorem Alike.loadFile (h : e.Alike e') (files : Files) (locale path : String) :
    (e.loadFile files locale path).1 = (e'.loadFile files locale path).1 ∧
      (e.loadFile files locale path).2.Alike (e'.loadFile files locale path).2 := by
  unfold Engine.loadFile
  cases Nested.load files path with
  | error failure => exact ⟨rfl, h⟩
  | ok value =>
    dsimp only
    cases value.toTree with
    | error failure => exact ⟨rfl, h⟩
    | ok root =>
      have hcatalog := congrArg (Catalog.withLocale · locale root) h.catalog
      exact ⟨rfl, (h.mapPaths (·.insert locale path)).swap hcatalog⟩

/-- Reloading returns the same on both sides. -/
theorem Alike.reload (h : e.Alike e') (files : Files) (locale : String) :
    (e.reload files locale).1 = (e'.reload files locale).1 ∧
      (e.reload files locale).2.Alike (e'.reload files locale).2 := by
  unfold Engine.reload
  rw [h.paths]
  cases e'.paths.get? locale with
  | none => exact ⟨rfl, h⟩
  | some path => exact h.loadFile files locale path

/-- Installing returns the same on both sides. -/
theorem Alike.install (h : e.Alike e') (c : Catalog) :
    (e.install c).1 = (e'.install c).1 ∧ (e.install c).2.Alike (e'.install c).2 := by
  have hgeneration : e.catalog.generation + 1 = e'.catalog.generation + 1 := by rw [h.catalog]
  exact ⟨hgeneration, (h.mapPaths fun _ => .empty).swap (congrArg c.stamped hgeneration)⟩

/-- Unloading returns the same on both sides. -/
theorem Alike.unload (h : e.Alike e') (locale : String) :
    (e.unload locale).1 = (e'.unload locale).1 ∧
      (e.unload locale).2.Alike (e'.unload locale).2 := by
  have hfound : e.catalog.hasLocale locale = e'.catalog.hasLocale locale := by rw [h.catalog]
  have hpaths := h.mapPaths (·.erase locale)
  unfold Engine.unload
  dsimp only
  rw [hfound]
  split
  · exact ⟨rfl, hpaths.swap (congrArg (Catalog.withoutLocale · locale) h.catalog)⟩
  · exact ⟨rfl, hpaths⟩

/-- Answering a request returns the same on both sides, whatever their caches hold. -/
theorem Alike.resolve (h : e.Alike e') (hf : e.Faithful) (hf' : e'.Faithful)
    (key locale : String) (params : Params) (policy : Policy) :
    (e.resolve key locale params policy).1 = (e'.resolve key locale params policy).1 ∧
      (e.resolve key locale params policy).2.Alike (e'.resolve key locale params policy).2 := by
  refine ⟨?_, h.defaultLocale, h.policy, h.escape, h.catalog, h.paths⟩
  -- Each side gives the plain answer, and that one depends on no cache.
  rw [(hf.resolve key locale params policy).1, (hf'.resolve key locale params policy).1, h.catalog,
    h.escape]

/-- Every operation returns the same on both sides and keeps the engines alike. -/
theorem Alike.perform (h : e.Alike e') (hf : e.Faithful) (hf' : e'.Faithful)
    (past : List Catalog) (op : Operation) :
    (e.perform past op).1 = (e'.perform past op).1 ∧
      (e.perform past op).2.Alike (e'.perform past op).2 := by
  cases op with
  | load locale value => exact (h.load locale value).imp_left (congrArg Reply.loaded)
  | extend locale value => exact (h.extend locale value).imp_left (congrArg Reply.loaded)
  | loadFile files locale path =>
    exact (h.loadFile files locale path).imp_left (congrArg Reply.loaded)
  | reload files locale => exact (h.reload files locale).imp_left (congrArg Reply.loaded)
  -- The catalog may be chosen among those that the session held, which are the same on both sides.
  | install choose =>
    unfold Engine.perform
    rw [h.catalog]
    exact (h.install _).imp_left (congrArg Reply.installed)
  | unload locale => exact (h.unload locale).imp_left (congrArg Reply.unloaded)
  | setDefaultLocale locale => exact ⟨rfl, rfl, h.policy, h.escape, h.catalog, h.paths⟩
  | clearCaches => exact ⟨rfl, h.defaultLocale, h.policy, h.escape, h.catalog, h.paths⟩
  | resolve key locale bindings =>
    unfold Engine.perform
    rw [h.policy]
    exact (h.resolve hf hf' key locale _ _).imp_left (congrArg Reply.answer)
  | get key bindings =>
    unfold Engine.perform Engine.get
    rw [h.defaultLocale, h.policy]
    exact (h.resolve hf hf' key _ _ _).imp_left (congrArg Reply.answer)
  | resolveWith key locale bindings policy =>
    exact (h.resolve hf hf' key locale _ policy).imp_left (congrArg Reply.answer)
  | resolveTable key locale params policy =>
    exact (h.resolve hf hf' key locale params policy).imp_left (congrArg Reply.answer)
  | validate => exact ⟨congrArg (fun c => Reply.issues (Lint.check c)) h.catalog, h⟩

end Engine

namespace Session

/-- Sessions whose engines agree in everything but their caches show the same. -/
theorem trace_congr {e e' : Engine} (h : e.Alike e') (hf : e.Faithful) (hf' : e'.Faithful)
    (past : List Catalog) (ops : List Operation) :
    (mk e past).trace ops = (mk e' past).trace ops := by
  -- Alike engines hold the same catalog, so both sessions also look back at the same ones.
  induction ops generalizing e e' past with
  | nil => rfl
  | cons op ops ih =>
    obtain ⟨hreply, halike⟩ := h.perform hf hf' past op
    have htail := ih halike (hf.perform past op) (hf'.perform past op) (e.catalog :: past)
    simp only [trace, step]
    rw [hreply, halike.catalog, htail, h.catalog]

/-- **The caches are transparent.** However large the caches are and however requests are assigned
to shards, every sequence of operations shows the same replies and the same catalogs. -/
theorem trace_eq_of_caches (config : Config) (answerCapacity answerShards memoCapacity : Nat)
    (route route' : Request → Nat) (ops : List Operation) :
    (start { config with answerCapacity, answerShards, memoCapacity } route').trace ops =
      (start config route).trace ops := by
  have halike :
      (Engine.new { config with answerCapacity, answerShards, memoCapacity } route').Alike
        (Engine.new config route) := ⟨rfl, rfl, rfl, rfl, rfl⟩
  exact trace_congr halike (Engine.faithful_new _ _) (Engine.faithful_new _ _) [] ops

end Session

end Phrasebook

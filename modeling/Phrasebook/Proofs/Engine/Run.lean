import Phrasebook.Proofs.Engine.Plain

/-!
# Runs of an engine

A session is an engine with the catalogs that were current earlier in it, so that a caller can keep
one and install it again. `Operation` lists what a caller can do, `Reply` what the caller gets to
see, and `Session.step` performs one operation. `Engine.Reachable` holds of the engines that any
sequence of operations leads to, and every such engine is faithful (`Engine.Reachable.faithful`).
-/

namespace Phrasebook

/-- One operation on an engine. Operations that read files come with the files at hand. -/
inductive Operation where
  /-- Load a locale from a nested value. -/
  | load (locale : String) (value : Nested)
  /-- Lay a nested value over a locale. -/
  | extend (locale : String) (value : Nested)
  /-- Load a locale from a file. -/
  | loadFile (files : Files) (locale path : String)
  /-- Load a locale again from its file. -/
  | reload (files : Files) (locale : String)
  /-- Install a catalog, which may be made from those that are or were current, the latest first. -/
  | install (choose : List Catalog → Catalog)
  /-- Remove a locale. -/
  | unload (locale : String)
  /-- Change the default locale. -/
  | setDefaultLocale (locale : String)
  /-- Drop the caches. -/
  | clearCaches
  /-- Answer a request under the policy of the settings. -/
  | resolve (key locale : String) (bindings : List (String × Value))
  /-- Answer a request in the default locale. -/
  | get (key : String) (bindings : List (String × Value))
  /-- Answer a request under a policy of its own. -/
  | resolveWith (key locale : String) (bindings : List (String × Value)) (policy : Policy)
  /-- Answer a request whose parameters are a table already. -/
  | resolveTable (key locale : String) (params : Params) (policy : Policy)
  /-- List the issues of the current catalog. -/
  | validate

/-- What an operation returns. -/
inductive Reply where
  /-- Nothing. -/
  | done
  /-- The number of entries loaded, or why nothing was. -/
  | loaded (result : Except LoadFailure Nat)
  /-- The generation of an installed catalog. -/
  | installed (generation : Nat)
  /-- Whether a locale was there. -/
  | unloaded (found : Bool)
  /-- The answer to a request. -/
  | answer (result : Except Failure String)
  /-- The issues of a catalog. -/
  | issues (found : List Lint.Issue)

/-- Performs an operation; `past` lists the catalogs that were current earlier. -/
def Engine.perform (e : Engine) (past : List Catalog) : Operation → Reply × Engine
  | .load locale value => (e.load locale value).map .loaded id
  | .extend locale value => (e.extend locale value).map .loaded id
  | .loadFile files locale path => (e.loadFile files locale path).map .loaded id
  | .reload files locale => (e.reload files locale).map .loaded id
  | .install choose => (e.install (choose (e.catalog :: past))).map .installed id
  | .unload locale => (e.unload locale).map .unloaded id
  | .setDefaultLocale locale => (.done, e.setDefaultLocale locale)
  | .clearCaches => (.done, e.clearCaches)
  | .resolve key locale bindings =>
    (e.resolve key locale (.ofPairs bindings) e.config.policy).map .answer id
  | .get key bindings => (e.get key (.ofPairs bindings)).map .answer id
  | .resolveWith key locale bindings policy =>
    (e.resolve key locale (.ofPairs bindings) policy).map .answer id
  | .resolveTable key locale params policy =>
    (e.resolve key locale params policy).map .answer id
  | .validate => (.issues e.validate, e)

/-- An engine with the catalogs that were current earlier, the latest first. -/
structure Session where
  /-- The engine. -/
  engine : Engine
  /-- The earlier catalogs. -/
  past : List Catalog := []

namespace Session

/-- A session with a new engine. -/
def start (config : Config) (route : Request → Nat) : Session :=
  { engine := .new config route }

/-- Performs one operation. -/
def step (s : Session) (op : Operation) : Reply × Session :=
  ((s.engine.perform s.past op).1,
    { engine := (s.engine.perform s.past op).2, past := s.engine.catalog :: s.past })

/-- Performs operations in order. -/
def run (s : Session) (ops : List Operation) : Session :=
  ops.foldl (fun s op => (s.step op).2) s

/-- What is seen of a run: after each operation its reply and the catalog. -/
def trace (s : Session) : List Operation → List (Reply × Catalog)
  | [] => []
  | op :: ops => ((s.step op).1, (s.step op).2.engine.catalog) :: (s.step op).2.trace ops

end Session

/-- An engine that operations lead to from a new one. -/
def Engine.Reachable (e : Engine) : Prop :=
  ∃ config route ops, e = ((Session.start config route).run ops).engine

namespace Engine

variable {e : Engine}

/-- Loading from a value keeps an engine faithful. -/
theorem Faithful.load (h : e.Faithful) (locale : String) (value : Nested) :
    (e.load locale value).2.Faithful := by
  unfold Engine.load
  cases value.toTree with
  | error failure => exact h
  | ok root => exact (h.withPaths _).swap _

/-- Extending keeps an engine faithful. -/
theorem Faithful.extend (h : e.Faithful) (locale : String) (value : Nested) :
    (e.extend locale value).2.Faithful := by
  unfold Engine.extend
  cases value.toTree with
  | error failure => exact h
  | ok above => exact h.swap _

/-- Loading from a file keeps an engine faithful. -/
theorem Faithful.loadFile (h : e.Faithful) (files : Files) (locale path : String) :
    (e.loadFile files locale path).2.Faithful := by
  unfold Engine.loadFile
  cases Nested.load files path with
  | error failure => exact h
  | ok value =>
    dsimp only
    cases value.toTree with
    | error failure => exact h
    | ok root => exact (h.withPaths _).swap _

/-- Reloading keeps an engine faithful. -/
theorem Faithful.reload (h : e.Faithful) (files : Files) (locale : String) :
    (e.reload files locale).2.Faithful := by
  unfold Engine.reload
  cases e.paths.get? locale with
  | none => exact h
  | some path => exact h.loadFile files locale path

/-- Unloading keeps an engine faithful. -/
theorem Faithful.unload (h : e.Faithful) (locale : String) : (e.unload locale).2.Faithful := by
  unfold Engine.unload
  dsimp only
  split
  · exact (h.withPaths _).swap _
  · exact h.withPaths _

/-- Every operation keeps an engine faithful. -/
theorem Faithful.perform (h : e.Faithful) (past : List Catalog) (op : Operation) :
    (e.perform past op).2.Faithful := by
  cases op with
  | load locale value => exact h.load locale value
  | extend locale value => exact h.extend locale value
  | loadFile files locale path => exact h.loadFile files locale path
  | reload files locale => exact h.reload files locale
  | install choose => exact (h.withPaths _).swap _
  | unload locale => exact h.unload locale
  | setDefaultLocale locale => exact ⟨h.memo, h.answers⟩
  | clearCaches => exact h.clearCaches
  | resolve key locale bindings => exact (h.resolve key locale _ _).2
  | get key bindings => exact (h.resolve key _ _ _).2
  | resolveWith key locale bindings policy => exact (h.resolve key locale _ policy).2
  | resolveTable key locale params policy => exact (h.resolve key locale params policy).2
  | validate => exact h

/-- A run keeps the engine of a session faithful. -/
theorem Faithful.run {s : Session} (h : s.engine.Faithful) (ops : List Operation) :
    (s.run ops).engine.Faithful := by
  -- By induction on the operations, of which each keeps the engine faithful.
  induction ops generalizing s with
  | nil => exact h
  | cons op ops ih => exact ih (h.perform s.past op)

/-- Every reachable engine is faithful. -/
theorem Reachable.faithful (h : e.Reachable) : e.Faithful := by
  obtain ⟨config, route, ops, rfl⟩ := h
  exact (faithful_new config route).run ops

end Engine

end Phrasebook

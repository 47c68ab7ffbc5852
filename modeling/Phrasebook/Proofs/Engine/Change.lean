import Phrasebook.Proofs.Engine.Checked

/-!
# What an operation can do

An operation either leaves the catalog and the remembered files as they are, or it is a write. A
write puts a tree in the place of a locale, removes a locale or replaces the catalog as a whole.
`Engine.Change` lists these cases, and `Engine.change_perform` says that there are no others, so that
a property of all operations needs one argument for each case instead of one for each operation.
-/

namespace Phrasebook

/-- The locale that an operation loads or lays a value over. -/
def Operation.loads? : Operation → Option String
  | .load locale _ => some locale
  | .extend locale _ => some locale
  | .loadFile _ locale _ => some locale
  | .reload _ locale => some locale
  | _ => none

/-- Whether an operation may change the catalog or the remembered files. -/
def Operation.isWrite : Operation → Bool
  | .install _ => true
  | .unload _ => true
  | op => op.loads?.isSome

/-- Whether a reply says that the catalog was changed. -/
def Reply.wrote : Reply → Bool
  | .loaded (.ok _) => true
  | .installed _ => true
  | .unloaded found => found
  | _ => false

/-- Whether a reply says that a write was refused. -/
def Reply.refused : Reply → Bool
  | .loaded (.error _) => true
  | .unloaded found => !found
  | _ => false

namespace Engine

variable {e : Engine} {locale : String}

/-- The remembered files after an operation has loaded a locale. -/
def pathsAfter (e : Engine) : Operation → Table String
  | .load locale _ => e.paths.erase locale
  | .loadFile _ locale path => e.paths.insert locale path
  | .reload _ locale =>
    match e.paths.get? locale with
    | none => e.paths
    | some path => e.paths.insert locale path
  | _ => e.paths

/-! ### Loading -/

/-- What loading a locale comes to: nothing changes, or a tree takes the place of the locale's and
the remembered files become `paths`. -/
inductive Loading (e : Engine) (locale : String) (paths : Table String) :
    Except LoadFailure Nat × Engine → Prop where
  /-- Nothing was loaded. -/
  | refused (failure : LoadFailure) : Loading e locale paths (.error failure, e)
  /-- The tree `root` was put in place. -/
  | placed (root : Branch) (hroot : e.catalog.Built → root.Built) :
      Loading e locale paths
        (.ok (Branch.entryCount root),
          { e with paths }.swap (e.catalog.withLocale locale root))

/-- A tree that is read from a nested value comes from nested values. -/
theorem built_of_toTree {value : Nested} {root : Branch} (h : value.toTree = .ok root) :
    root.Built := by
  rw [Nested.toTree] at h
  split at h
  · rename_i hbuild
    cases h
    exact .build hbuild
  · cases h

/-- Loading from a value forgets the file of the locale. -/
theorem loading_load (e : Engine) (locale : String) (value : Nested) :
    e.Loading locale (e.paths.erase locale) (e.load locale value) := by
  unfold Engine.load
  cases htree : value.toTree with
  | error failure => exact .refused failure
  | ok root => exact .placed root fun _ => built_of_toTree htree

/-- Extending keeps the remembered files. -/
theorem loading_extend (e : Engine) (locale : String) (value : Nested) :
    e.Loading locale e.paths (e.extend locale value) := by
  unfold Engine.extend
  cases htree : value.toTree with
  | error failure => exact .refused failure
  | ok above =>
    refine .placed _ fun hbuilt => ?_
    -- The value is laid over the tree of the locale, or it is the first one there.
    split
    · rename_i base hbase
      exact .overlay (hbuilt locale base hbase) (built_of_toTree htree)
    · exact built_of_toTree htree

/-- Loading from a file remembers the file. -/
theorem loading_loadFile (e : Engine) (files : Files) (locale path : String) :
    e.Loading locale (e.paths.insert locale path) (e.loadFile files locale path) := by
  unfold Engine.loadFile
  cases Nested.load files path with
  | error failure => exact .refused failure
  | ok value =>
    dsimp only
    cases htree : value.toTree with
    | error failure => exact .refused failure
    | ok root => exact .placed root fun _ => built_of_toTree htree

/-- Reloading a locale that came from no file is refused. -/
theorem reload_of_get?_eq_none (h : e.paths.get? locale = none) (files : Files) :
    e.reload files locale = (.error (.notFromFile locale), e) := by
  rw [reload, h]

/-- Reloading a locale is loading it from the file it came from. -/
theorem reload_of_get?_eq_some {path : String} (h : e.paths.get? locale = some path)
    (files : Files) :
    e.reload files locale = e.loadFile files locale path := by
  rw [reload, h]

/-- Reloading remembers the file that was remembered. -/
theorem loading_reload (e : Engine) (files : Files) (locale : String) :
    e.Loading locale (e.pathsAfter (.reload files locale)) (e.reload files locale) := by
  rw [pathsAfter]
  cases hpath : e.paths.get? locale with
  | none =>
    rw [reload_of_get?_eq_none hpath]
    exact .refused _
  | some path =>
    rw [reload_of_get?_eq_some hpath]
    exact loading_loadFile e files locale path

/-! ### Operations -/

/-- What an operation can do to an engine, with the reply that tells. The catalogs that were current
earlier are `past`. -/
inductive Change (e : Engine) (past : List Catalog) : Operation → Reply → Engine → Prop where
  /-- A locale could not be loaded. -/
  | refused {op : Operation} {locale : String} (hop : op.loads? = some locale)
      (failure : LoadFailure) : Change e past op (.loaded (.error failure)) e
  /-- A tree was put in the place of a locale's. -/
  | placed {op : Operation} {locale : String} (hop : op.loads? = some locale) (root : Branch)
      (hroot : e.catalog.Built → root.Built) :
      Change e past op (.loaded (.ok (Branch.entryCount root)))
        ({ e with paths := e.pathsAfter op }.swap (e.catalog.withLocale locale root))
  /-- The catalog was replaced. -/
  | installed (choose : List Catalog → Catalog) :
      Change e past (.install choose) (.installed (e.catalog.generation + 1))
        ({ e with paths := .empty }.swap
          ((choose (e.catalog :: past)).stamped (e.catalog.generation + 1)))
  /-- A locale was removed. -/
  | removed {locale : String} (hfound : e.catalog.hasLocale locale = true) :
      Change e past (.unload locale) (.unloaded true)
        ({ e with paths := e.paths.erase locale }.swap (e.catalog.withoutLocale locale))
  /-- The locale that was to be removed was not there. -/
  | absent {locale : String} (hmissing : e.catalog.hasLocale locale = false) :
      Change e past (.unload locale) (.unloaded false) { e with paths := e.paths.erase locale }
  /-- The operation is no write. -/
  | kept {op : Operation} {reply : Reply} {next : Engine} (hop : op.isWrite = false)
      (hwrote : reply.wrote = false) (hrefused : reply.refused = false)
      (hcatalog : next.catalog = e.catalog) (hpaths : next.paths = e.paths) :
      Change e past op reply next

/-- An operation that loads a locale changes an engine as loading does. -/
theorem Change.of_loading {past : List Catalog} {op : Operation}
    {result : Except LoadFailure Nat × Engine} (hop : op.loads? = some locale)
    (h : e.Loading locale (e.pathsAfter op) result) :
    e.Change past op (.loaded result.1) result.2 := by
  cases h with
  | refused failure => exact .refused hop failure
  | placed root hroot => exact .placed hop root hroot

/-- Every operation changes an engine in one of these ways. -/
theorem change_perform (e : Engine) (past : List Catalog) (op : Operation) :
    e.Change past op (e.perform past op).1 (e.perform past op).2 := by
  cases op with
  | load locale value => exact .of_loading rfl (loading_load e locale value)
  | extend locale value => exact .of_loading rfl (loading_extend e locale value)
  | loadFile files locale path => exact .of_loading rfl (loading_loadFile e files locale path)
  | reload files locale => exact .of_loading rfl (loading_reload e files locale)
  | install choose => exact .installed choose
  | unload locale =>
    simp only [perform, unload]
    split
    · rename_i hfound
      exact .removed hfound
    · rename_i hmissing
      exact .absent (by simpa using hmissing)
  | setDefaultLocale locale => exact .kept rfl rfl rfl rfl rfl
  | clearCaches => exact .kept rfl rfl rfl rfl rfl
  | resolve key locale bindings => exact .kept rfl rfl rfl rfl rfl
  | get key bindings => exact .kept rfl rfl rfl rfl rfl
  | resolveWith key locale bindings policy => exact .kept rfl rfl rfl rfl rfl
  | resolveTable key locale params policy => exact .kept rfl rfl rfl rfl rfl
  | validate => exact .kept rfl rfl rfl rfl rfl

end Engine

end Phrasebook

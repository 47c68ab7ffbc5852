import Phrasebook.Cache.Answers
import Phrasebook.Engine.Resolve
import Phrasebook.Lint
import Phrasebook.Source.Load

/-!
# The engine

The engine holds the current catalog, remembers which locales came from which files, and keeps
recent answers and conditions. Every operation is a function from the state to an answer and the
next state. A load that fails changes nothing; a load that succeeds makes the next catalog and drops
the answers of the earlier one.
-/

namespace Phrasebook

/-- The settings of an engine. -/
structure Config where
  /-- The locale of requests that name none. -/
  defaultLocale : String := "en"
  /-- How failures are dealt with where a request does not say. -/
  policy : Policy := {}
  /-- How many answers are kept. -/
  answerCapacity : Nat := 1024
  /-- Over how many shards the answers are spread. -/
  answerShards : Nat := 8
  /-- How many conditions are remembered. -/
  memoCapacity : Nat := 256
  /-- How text parameters are escaped. -/
  escape : EscapeSet := {}
  deriving DecidableEq

/-- The state of an engine. -/
structure Engine where
  /-- The settings. -/
  config : Config
  /-- The current catalog. -/
  catalog : Catalog
  /-- The files that locales were loaded from. -/
  paths : Table String
  /-- The kept answers. -/
  answers : Answers
  /-- The remembered conditions. -/
  memo : Memo

namespace Engine

/-- A new engine; `route` assigns requests to shards. -/
def new (config : Config) (route : Request → Nat) : Engine :=
  { config
    catalog := .empty
    paths := .empty
    answers := .ofCapacity route config.answerCapacity config.answerShards
    memo := .ofCapacity config.memoCapacity }

/-- Changes the locale of requests that name none. -/
def setDefaultLocale (e : Engine) (locale : String) : Engine :=
  { e with config := { e.config with defaultLocale := locale } }

/-! ### Loading -/

/-- Makes a catalog the current one. No answer of an earlier one can be asked for again. -/
def swap (e : Engine) (catalog : Catalog) : Engine :=
  { e with catalog, answers := e.answers.clear }

/-- Makes a tree the one of a locale. -/
def replaceLocale (e : Engine) (locale : String) (root : Branch) : Nat × Engine :=
  (Branch.entryCount root, e.swap (e.catalog.withLocale locale root))

/-- Replaces all locales at once. None of them can be reloaded until it is loaded from a file. -/
def install (e : Engine) (catalog : Catalog) : Nat × Engine :=
  let generation := e.catalog.generation + 1
  (generation, { e with paths := .empty }.swap (catalog.stamped generation))

/-- Loads a locale from a nested value and counts its entries. It cannot be reloaded. -/
def load (e : Engine) (locale : String) (value : Nested) : Except LoadFailure Nat × Engine :=
  match value.toTree with
  | .error failure => (.error failure, e)
  | .ok root =>
    let (count, e) := { e with paths := e.paths.erase locale }.replaceLocale locale root
    (.ok count, e)

/-- Lays a nested value over the tree of a locale and counts the entries of both together. -/
def extend (e : Engine) (locale : String) (value : Nested) : Except LoadFailure Nat × Engine :=
  match value.toTree with
  | .error failure => (.error failure, e)
  | .ok above =>
    let root :=
      match e.catalog.root? locale with
      | some base => Branch.overlay base above
      | none => above
    let (count, e) := e.replaceLocale locale root
    (.ok count, e)

/-- Loads a locale from a file, which is remembered, and counts its entries. -/
def loadFile (e : Engine) (files : Files) (locale path : String) :
    Except LoadFailure Nat × Engine :=
  match Nested.load files path with
  | .error failure => (.error failure, e)
  | .ok value =>
    match value.toTree with
    | .error failure => (.error failure, e)
    | .ok root =>
      let (count, e) := { e with paths := e.paths.insert locale path }.replaceLocale locale root
      (.ok count, e)

/-- Loads a locale again from the file it came from. -/
def reload (e : Engine) (files : Files) (locale : String) : Except LoadFailure Nat × Engine :=
  match e.paths.get? locale with
  | none => (.error (.notFromFile locale), e)
  | some path => e.loadFile files locale path

/-- Removes a locale, and says whether it was there. -/
def unload (e : Engine) (locale : String) : Bool × Engine :=
  let e := { e with paths := e.paths.erase locale }
  if e.catalog.hasLocale locale then (true, e.swap (e.catalog.withoutLocale locale))
  else (false, e)

/-! ### Answering -/

/-- Answers a request under a policy. Only texts are kept, and before the policy is applied. -/
def resolve (e : Engine) (key locale : String) (params : Params) (policy : Policy) :
    Except Failure String × Engine :=
  let request : Request :=
    { key, locale, fallback := policy.fallback, generation := e.catalog.generation, params }
  let (result, answers, memo) :=
    e.answers.getOrCompute request e.memo fun memo =>
      e.catalog.resolve e.config.escape memo key locale policy.fallback params
  (policy.settle key result, { e with answers, memo })

/-- Answers a request in the default locale under the policy of the settings. -/
def get (e : Engine) (key : String) (params : Params) : Except Failure String × Engine :=
  e.resolve key e.config.defaultLocale params e.config.policy

/-- The issues of the current catalog. -/
def validate (e : Engine) : List Lint.Issue :=
  Lint.check e.catalog

/-- Drops all answers and conditions. -/
def clearCaches (e : Engine) : Engine :=
  { e with answers := e.answers.clear, memo := e.memo.clear }

end Engine

end Phrasebook

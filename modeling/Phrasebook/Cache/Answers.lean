import Phrasebook.Cache.Recent
import Phrasebook.Params

/-!
# The store of answers

Texts that were resolved are kept under everything they depend on: key, locale, fallback, parameters
and the generation of the catalog. The store is divided into shards that are bounded each on its
own; `route` assigns a request to a shard. Lookups are counted as hits or misses.
-/

namespace Phrasebook

/-- What an answer depends on. -/
structure Request where
  /-- The key. -/
  key : String
  /-- The locale. -/
  locale : String
  /-- The locale to fall back to. -/
  fallback : Option String
  /-- The generation of the catalog. -/
  generation : Nat
  /-- The parameters. -/
  params : Params
  deriving DecidableEq

/-- How many shards a store has: at least one and no more than the capacity allows, none without
capacity. -/
def shardCount (capacity shards : Nat) : Nat :=
  min (max shards 1) capacity

/-- The capacities of the shards. They differ by at most one, the larger ones first. -/
def shardCapacities (capacity shards : Nat) : List Nat :=
  let count := shardCount capacity shards
  (List.range count).map fun i =>
    if i < capacity % count then capacity / count + 1 else capacity / count

/-- Answers kept for later requests. -/
structure Answers where
  /-- Assigns requests to shards; taken modulo their number. -/
  route : Request → Nat
  /-- How many answers are kept at most. -/
  capacity : Nat
  /-- The shards. -/
  shards : List (Recent Request String)
  /-- Lookups that found an answer. The count has no bound here; that a counter of 64 bits begins
  again after `2 ^ 64` lookups is left out. -/
  hits : Nat := 0
  /-- Lookups that found none, counted without a bound as well. -/
  misses : Nat := 0

namespace Answers

/-- An empty store. -/
def ofCapacity (route : Request → Nat) (capacity shards : Nat) : Answers :=
  { route, capacity
    shards := (shardCapacities capacity shards).map fun size => { capacity := size } }

/-- The position of the shard of a request. -/
def slot (a : Answers) (r : Request) : Nat :=
  a.route r % a.shards.length

/-- Looks a request up. Without shards every lookup is a miss. -/
def get? (a : Answers) (r : Request) : Option String × Answers :=
  match a.shards[a.slot r]? with
  | none => (none, { a with misses := a.misses + 1 })
  | some shard =>
    match shard.get? r with
    | (some text, shard) =>
      (some text, { a with shards := a.shards.set (a.slot r) shard, hits := a.hits + 1 })
    | (none, _) => (none, { a with misses := a.misses + 1 })

/-- Stores the answer to a request. -/
def insert (a : Answers) (r : Request) (text : String) : Answers :=
  match a.shards[a.slot r]? with
  | none => a
  | some shard => { a with shards := a.shards.set (a.slot r) (shard.insert r text) }

/-- The stored answer, or the computed one, which is stored unless it is a failure. The computation
may use and change a state of its own; it does not run if there is a stored answer. -/
def getOrCompute {ε σ : Type} (a : Answers) (r : Request) (state : σ)
    (compute : σ → Except ε String × σ) : Except ε String × Answers × σ :=
  match a.get? r with
  | (some text, a) => (.ok text, a, state)
  | (none, a) =>
    match compute state with
    | (.ok text, state) => (.ok text, a.insert r text, state)
    | (.error e, state) => (.error e, a, state)

/-- Drops all answers; the counts stay. -/
def clear (a : Answers) : Answers :=
  { a with shards := a.shards.map Recent.clear }

/-- The number of stored answers. -/
def size (a : Answers) : Nat :=
  a.shards.foldr (fun shard count => shard.size + count) 0

end Answers

end Phrasebook

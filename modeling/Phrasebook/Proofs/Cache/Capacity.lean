import Mathlib.Algebra.GroupWithZero.Nat
import Phrasebook.Proofs.Cache.Shards

/-!
# The capacity of a store

A store is divided into shards as evenly as its capacity allows, and no room is lost or added by the
division: the sizes sum to the capacity. As every shard keeps its own bound, whatever requests are
assigned to it, the store keeps the bound of the whole.

* `Answers.sum_shardCapacities`: the sizes of the shards sum to the capacity;
* `Answers.Traces.size_le`: a store has no more answers than its shards have room for;
* `Answers.Traces.lastStored?_of_get?`: what a lookup finds is the answer stored last;
* `Answers.Watched.Counted`: the lookups are counted, as hits or as misses;
* `Answers.shards_keep_bound`: all of this after every run.
-/

namespace Phrasebook

open Recent (Event Log)

namespace Answers

/-! ### Dividing the capacity -/

section Dividing

variable {capacity shards : Nat}

theorem shardCount_eq (capacity shards : Nat) :
    shardCount capacity shards = if capacity = 0 then 0 else max 1 (min shards capacity) := by
  unfold shardCount
  split <;> omega

/-- A shard has an even part of the capacity, or one more. -/
theorem mem_shardCapacities {size : Nat} (h : size ∈ shardCapacities capacity shards) :
    size = capacity / shardCount capacity shards ∨
      size = capacity / shardCount capacity shards + 1 := by
  obtain ⟨i, -, rfl⟩ := List.mem_map.mp h
  split
  · exact Or.inr rfl
  · exact Or.inl rfl

/-- No shard is without room. -/
theorem pos_of_mem_shardCapacities {size : Nat} (h : size ∈ shardCapacities capacity shards) :
    1 ≤ size := by
  have hcount : 0 < shardCount capacity shards := by
    obtain ⟨i, hi, -⟩ := List.mem_map.mp h
    exact Nat.lt_of_le_of_lt (Nat.zero_le i) (List.mem_range.mp hi)
  have hle : shardCount capacity shards ≤ capacity := Nat.min_le_right _ _
  have hpart : 1 ≤ capacity / shardCount capacity shards := (Nat.one_le_div_iff hcount).mpr hle
  rcases mem_shardCapacities h with rfl | rfl
  · exact hpart
  · omega

/-- Equal parts of which some of the first have one more. -/
theorem sum_parts (part extra count : Nat) :
    ((List.range count).map fun i => if i < extra then part + 1 else part).sum =
      count * part + min extra count := by
  induction count with
  | zero => simp
  | succ count ih =>
    rw [List.range_succ, List.map_append, List.sum_append, ih, Nat.succ_mul]
    simp only [List.map_cons, List.map_nil, List.sum_cons, List.sum_nil]
    split <;> omega

/-- Dividing the capacity loses no room. -/
theorem sum_shardCapacities (capacity shards : Nat) :
    (shardCapacities capacity shards).sum = capacity := by
  rw [shardCapacities, sum_parts]
  by_cases hcapacity : capacity = 0
  · simp [hcapacity, shardCount]
  · have hcount : 0 < shardCount capacity shards := by
      rw [shardCount_eq, if_neg hcapacity]
      omega
    -- The remainder is less than the number of shards, so each of its units finds a shard.
    rw [Nat.min_eq_left (Nat.mod_lt capacity hcount).le]
    exact Nat.div_add_mod _ _

example : shardCapacities 11 4 = [3, 3, 3, 2] := by decide

end Dividing

/-! ### The number of answers -/

section Traces

variable {a : Answers} {capacities : List Nat} {log : Log Request String} {r : Request}
  {text : String}

/-- A store that follows a log has no more answers than its shards have room for. -/
theorem Traces.size_le (h : a.Traces capacities log) : a.size ≤ capacities.sum := by
  have hshards : ∀ shard ∈ a.shards, shard.size ≤ shard.capacity := by
    intro shard hshard
    obtain ⟨i, hi⟩ := List.mem_iff_getElem?.mp hshard
    exact (h.shards i shard hi).size_le
  rw [← h.capacities, size]
  -- By induction on the shards, each of which keeps its own bound.
  generalize a.shards = shards at hshards
  induction shards with
  | nil => exact Nat.le_refl 0
  | cons shard shards ih =>
    obtain ⟨hfirst, hrest⟩ := List.forall_mem_cons.mp hshards
    rw [List.foldr_cons, List.map_cons, List.sum_cons]
    exact Nat.add_le_add hfirst (ih hrest)

/-! ### What a lookup finds -/

/-- The answer stored last for a request is a matter of its shard. -/
theorem lastStored?_shardLog (a : Answers) (r : Request) (log : Log Request String) :
    (a.shardLog (a.slot r) log).lastStored? r = log.lastStored? r := by
  induction log with
  | nil => rfl
  | cons event log ih =>
    -- An event of another shard is one of another request.
    cases event with
    | cleared => simp [shardLog, Event.key?, Log.lastStored?]
    | found other =>
      by_cases hslot : a.slot other = a.slot r <;>
        simpa [shardLog, Event.key?, hslot, Log.lastStored?] using ih
    | stored other answer =>
      by_cases hother : other = r
      · simp [shardLog, Event.key?, hother, Log.lastStored?]
      · by_cases hslot : a.slot other = a.slot r <;>
          simpa [shardLog, Event.key?, hslot, hother, Log.lastStored?] using ih

/-- A lookup finds the answer that was stored last. -/
theorem Traces.lastStored?_of_get? (h : a.Traces capacities log)
    (hget : (a.get? r).1 = some text) : log.lastStored? r = some text := by
  obtain ⟨shard, -, hkept⟩ := (h.get?_eq_some_iff r text).mp hget
  rw [← a.lastStored?_shardLog r log]
  exact hkept.stored

end Traces

/-! ### The number of lookups -/

/-- Whether an operation looks a request up. -/
def Operation.isLookup {ε σ : Type} : Operation ε σ → Bool
  | .get _ => true
  | .insert _ _ => false
  | .getOrCompute _ _ => true
  | .clear => false

/-- Whether an event is a lookup that found something. -/
def isHit : Event Request String → Bool
  | .found _ => true
  | _ => false

/-- A lookup that finds something is a hit. -/
theorem counts_get?_of_eq_some {a : Answers} {r : Request} {text : String}
    (h : (a.get? r).1 = some text) :
    (a.get? r).2.hits = a.hits + 1 ∧ (a.get? r).2.misses = a.misses := by
  unfold get? at h ⊢
  cases hslot : a.shards[a.slot r]? with
  | none =>
    rw [hslot] at h
    cases h
  | some shard =>
    rw [hslot] at h
    dsimp only at h ⊢
    rcases hget : shard.get? r with ⟨_ | found, shard'⟩
    · rw [hget] at h
      cases h
    · exact ⟨rfl, rfl⟩

/-- Storing an answer is no lookup. -/
theorem counts_insert (a : Answers) (r : Request) (text : String) :
    (a.insert r text).hits = a.hits ∧ (a.insert r text).misses = a.misses := by
  unfold insert
  cases a.shards[a.slot r]? <;> exact ⟨rfl, rfl⟩

namespace Watched

variable {ε σ : Type} {w : Watched σ} {lookups : Nat}

/-- A store that counted its lookups, of which there were this many. -/
structure Counted (w : Watched σ) (lookups : Nat) : Prop where
  /-- The hits are the lookups that found something. -/
  hits : w.answers.hits = w.log.countP isHit
  /-- Every lookup is counted once. -/
  all : w.answers.hits + w.answers.misses = lookups

/-- Only a lookup changes the counts. -/
theorem counts_step_of_not_isLookup (w : Watched σ) (op : Operation ε σ)
    (h : op.isLookup = false) :
    (w.step op).answers.hits = w.answers.hits ∧ (w.step op).answers.misses = w.answers.misses := by
  cases op with
  | get r => cases h
  | getOrCompute r compute => cases h
  | insert r text => exact w.answers.counts_insert r text
  | clear => exact ⟨rfl, rfl⟩

/-- What an operation adds to the counts: a lookup that finds something is a hit, any other lookup
is a miss, and nothing else is counted. -/
theorem counts_step (w : Watched σ) (op : Operation ε σ) :
    (w.step op).answers.hits = w.answers.hits + (w.event? op).toList.countP isHit ∧
      (w.step op).answers.hits + (w.step op).answers.misses =
        w.answers.hits + w.answers.misses + (if op.isLookup then 1 else 0) := by
  cases op with
  | clear => exact ⟨rfl, rfl⟩
  | insert r text =>
    obtain ⟨hhits, hmisses⟩ := w.counts_step_of_not_isLookup (.insert r text) rfl
    exact ⟨hhits, by rw [hhits, hmisses]; rfl⟩
  | get r =>
    cases hget : (w.answers.get? r).1 with
    | none =>
      have hmiss := get?_of_eq_none hget
      simp [step, after, event?, hget, hmiss, Operation.isLookup, Nat.add_assoc]
    | some text =>
      obtain ⟨hhits, hmisses⟩ := counts_get?_of_eq_some hget
      simp [step, after, event?, hget, hhits, hmisses, isHit, Operation.isLookup,
        Nat.add_right_comm]
  | getOrCompute r compute =>
    -- It looks up once; neither storing a text nor failing to compute one is counted again.
    rcases getOrCompute_cases w r compute with
      ⟨text, hget, hevent, hresult⟩ | ⟨text, hevent, hresult⟩ | ⟨failure, hevent, hresult⟩
    · obtain ⟨hhits, hmisses⟩ := counts_get?_of_eq_some hget
      simp [step, after, hevent, hresult, hhits, hmisses, isHit, Operation.isLookup,
        Nat.add_right_comm]
    · obtain ⟨hhits, hmisses⟩ := counts_insert
        { w.answers with misses := w.answers.misses + 1 } r text
      simp [step, after, hevent, hresult, hhits, hmisses, isHit, Operation.isLookup,
        Nat.add_assoc]
    · simp [step, after, hevent, hresult, Operation.isLookup, Nat.add_assoc]

theorem Counted.step (h : w.Counted lookups) (op : Operation ε σ) :
    (w.step op).Counted (lookups + if op.isLookup then 1 else 0) := by
  obtain ⟨hhits, hall⟩ := w.counts_step op
  refine ⟨?_, by rw [hall, h.all]⟩
  rw [hhits, h.hits, Watched.step, List.countP_append, Nat.add_comm]

/-- After every run the lookups of the run are counted. -/
theorem counted_run (route : Request → Nat) (capacity shards : Nat) (state : σ)
    (ops : List (Operation ε σ)) :
    ((start route capacity shards state).run ops).Counted (ops.countP Operation.isLookup) := by
  have hrun : ∀ (w : Watched σ) (lookups : Nat), w.Counted lookups →
      (w.run ops).Counted (lookups + ops.countP Operation.isLookup) := by
    -- By induction on the operations, for any number of lookups before them.
    induction ops with
    | nil => exact fun w lookups h => h
    | cons op ops ih =>
      intro w lookups h
      have hrest := ih (w.step op) _ (h.step op)
      rw [List.countP_cons, Nat.add_comm (ops.countP _), ← Nat.add_assoc]
      exact hrest
  simpa using hrun _ 0 ⟨rfl, rfl⟩

/-- What asking for an answer returns is from then on the answer stored last. -/
theorem lastStored?_of_getOrCompute {capacities : List Nat} {r : Request}
    {compute : σ → Except ε String × σ} {text : String}
    (htraces : w.answers.Traces capacities w.log)
    (h : (w.answers.getOrCompute r w.state compute).1 = .ok text) :
    (w.step (.getOrCompute r compute)).log.lastStored? r = some text := by
  rcases getOrCompute_cases w r compute with
    ⟨found, hget, hevent, hresult⟩ | ⟨computed, hevent, hresult⟩ | ⟨failure, -, hresult⟩ <;>
    rw [hresult] at h <;> cases h
  · rw [step, hevent]
    exact htraces.lastStored?_of_get? hget
  · rw [step, hevent]
    exact if_pos rfl

end Watched

/-- **The shards keep the bound.** A new store has as many shards as are asked for, but at least one
and no more than its capacity, and none without capacity; their sizes are positive, differ by one at
most and sum to the capacity. After every run, however requests are assigned to shards, the store
has no more answers than its capacity; what is found, or returned as found or computed, is the
answer stored last for this very request since the store was dropped; and the counts are those of
the lookups made, which only a lookup changes. -/
theorem shards_keep_bound :
    (∀ (route : Request → Nat) (capacity shards : Nat),
      let sizes := (ofCapacity route capacity shards).shards.map Recent.capacity
      sizes.length = (if capacity = 0 then 0 else max 1 (min shards capacity)) ∧
        (∀ size ∈ sizes, 1 ≤ size) ∧ (∀ size ∈ sizes, ∀ other ∈ sizes, size ≤ other + 1) ∧
        sizes.sum = capacity) ∧
    (∀ (route : Request → Nat) (capacity shards : Nat) {ε σ : Type} (state : σ)
      (ops : List (Operation ε σ)),
      let w := (Watched.start route capacity shards state).run ops
      w.answers.size ≤ capacity ∧
        (∀ r text, (w.answers.get? r).1 = some text → w.log.lastStored? r = some text) ∧
        (∀ (r : Request) (compute : σ → Except ε String × σ) (text : String),
          (w.answers.getOrCompute r w.state compute).1 = .ok text →
            (w.step (.getOrCompute r compute)).log.lastStored? r = some text) ∧
        w.answers.hits = w.log.countP isHit ∧
        w.answers.hits + w.answers.misses = ops.countP Operation.isLookup ∧
        ∀ op : Operation ε σ, op.isLookup = false →
          (w.step op).answers.hits = w.answers.hits ∧
            (w.step op).answers.misses = w.answers.misses) := by
  constructor
  · intro route capacity shards sizes
    have hsizes : sizes = shardCapacities capacity shards :=
      (traces_ofCapacity route capacity shards).capacities
    rw [hsizes]
    refine ⟨?_, fun size => pos_of_mem_shardCapacities, ?_, sum_shardCapacities capacity shards⟩
    · rw [← shardCount_eq, shardCapacities, List.length_map, List.length_range]
    · intro size hsize other hother
      rcases mem_shardCapacities hsize with rfl | rfl <;>
        rcases mem_shardCapacities hother with rfl | rfl <;> omega
  · intro route capacity shards ε σ state ops w
    have htraces := Watched.traces_run route capacity shards state ops
    have hcounted := Watched.counted_run route capacity shards state ops
    have hsize : w.answers.size ≤ capacity :=
      htraces.size_le.trans_eq (sum_shardCapacities capacity shards)
    exact ⟨hsize, fun r text => htraces.lastStored?_of_get?,
      fun r compute text => Watched.lastStored?_of_getOrCompute htraces, hcounted.hits,
      hcounted.all, w.counts_step_of_not_isLookup⟩

/-- Requests that differ in the generation only, by which they are assigned to shards here. -/
def requestOf (generation : Nat) : Request :=
  { key := "k", locale := "en", fallback := none, generation, params := .empty }

/-- Operations on a store of three shards, the last of which has room for one answer: the answer
for 5 takes the place of that for 2, which is computed again. -/
def uneven : List (Operation Unit Unit) :=
  [.insert (requestOf 2) "a", .insert (requestOf 5) "b", .get (requestOf 5), .get (requestOf 2),
    .getOrCompute (requestOf 2) fun state => (.ok "c", state)]

/-- Five answers over three shards: the last shard is smaller by one, and what it finds is the
answer that was computed last. -/
theorem shards_keep_bound_uneven :
    let sizes := (ofCapacity Request.generation 5 3).shards.map Recent.capacity
    let w := (Watched.start Request.generation 5 3 ()).run uneven
    sizes = [2, 2, 1] ∧ sizes.sum = 5 ∧ w.answers.size ≤ 5 ∧
      (w.answers.get? (requestOf 2)).1 = some "c" ∧ w.log.lastStored? (requestOf 2) = some "c" ∧
      w.answers.hits + w.answers.misses = 3 := by
  intro sizes w
  obtain ⟨hsizes, hruns⟩ := shards_keep_bound
  obtain ⟨-, -, -, hsum⟩ := hsizes Request.generation 5 3
  obtain ⟨hsize, hfound, -, -, hlookups, -⟩ := hruns Request.generation 5 3 () uneven
  have hget : (w.answers.get? (requestOf 2)).1 = some "c" := by decide +kernel
  exact ⟨rfl, hsum, hsize, hget, hfound _ _ hget, hlookups⟩

end Answers

end Phrasebook

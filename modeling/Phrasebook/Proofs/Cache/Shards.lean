import Phrasebook.Proofs.Cache.Contents
import Phrasebook.Proofs.Cache.Recency

/-!
# The shards of a store and the history of their uses

A store of answers is watched while operations are performed on it: `Answers.Watched` logs every use
of a request. Each shard follows the events of its own requests, so what a shard keeps is read off
the log.

* `Answers.Watched.run`: any sequence of operations, with its log;
* `Answers.Traces`: every shard follows its part of the log;
* `Answers.Watched.traces_run`: it does so after every run;
* `Answers.Traces.get?_eq_some_iff_of_shardCount_le_one`: a store of one shard finds what is kept
  in the log.
-/

namespace Phrasebook

namespace Answers

open Recent (Event Log)

/-! ### Computing an answer -/

section Computing

variable {ε σ : Type} {a : Answers} {r : Request} {state : σ}
  {compute : σ → Except ε String × σ} {text : String}

/-- What is found is not computed. -/
theorem getOrCompute_of_get?_eq_some (h : (a.get? r).1 = some text) :
    a.getOrCompute r state compute = (.ok text, (a.get? r).2, state) := by
  unfold getOrCompute
  rcases hget : a.get? r with ⟨_ | found, a'⟩ <;> rw [hget] at h <;> cases h
  rfl

/-- A text that is computed is stored. -/
theorem getOrCompute_of_ok (h : (a.get? r).1 = none) (hcompute : (compute state).1 = .ok text) :
    a.getOrCompute r state compute =
      (.ok text, { a with misses := a.misses + 1 }.insert r text, (compute state).2) := by
  unfold getOrCompute
  have hmiss := get?_of_eq_none h
  rcases hget : a.get? r with ⟨_ | found, a'⟩ <;> rw [hget] at h hmiss <;> cases h
  rcases hresult : compute state with ⟨failure | found, state'⟩ <;>
    rw [hresult] at hcompute <;> cases hcompute
  rw [← hmiss]

/-- A failure is not stored. -/
theorem getOrCompute_of_error {failure : ε} (h : (a.get? r).1 = none)
    (hcompute : (compute state).1 = .error failure) :
    a.getOrCompute r state compute =
      (.error failure, { a with misses := a.misses + 1 }, (compute state).2) := by
  unfold getOrCompute
  have hmiss := get?_of_eq_none h
  rcases hget : a.get? r with ⟨_ | found, a'⟩ <;> rw [hget] at h hmiss <;> cases h
  rcases hresult : compute state with ⟨failure' | found, state'⟩ <;>
    rw [hresult] at hcompute <;> cases hcompute
  rw [← hmiss]

end Computing

/-! ### Operations and their log -/

/-- One operation on a store of answers. A computation may use and change a state of its own, and
one that cannot fail always yields a text. -/
inductive Operation (ε σ : Type) where
  /-- Look a request up. -/
  | get (r : Request)
  /-- Store the answer to a request. -/
  | insert (r : Request) (text : String)
  /-- Look a request up, and compute and store its answer if there is none. -/
  | getOrCompute (r : Request) (compute : σ → Except ε String × σ)
  /-- Drop all answers. -/
  | clear

/-- A store of answers that is watched. -/
structure Watched (σ : Type) where
  /-- The store. -/
  answers : Answers
  /-- The state that computations use. -/
  state : σ
  /-- The uses of the store, the latest first. -/
  log : Log Request String := []

namespace Watched

variable {ε σ : Type}

/-- A new store. -/
def start (route : Request → Nat) (capacity shards : Nat) (state : σ) : Watched σ :=
  { answers := .ofCapacity route capacity shards, state }

/-- What an operation does to the entries. A lookup that finds nothing is no use, nor is a
computation that fails. -/
def event? (w : Watched σ) : Operation ε σ → Option (Event Request String)
  | .get r => (w.answers.get? r).1.map fun _ => .found r
  | .insert r text => some (.stored r text)
  | .getOrCompute r compute =>
    match (w.answers.get? r).1 with
    | some _ => some (.found r)
    | none => (compute w.state).1.toOption.map (.stored r ·)
  | .clear => some .cleared

/-- The store and the state of the computations after an operation. -/
def after (w : Watched σ) : Operation ε σ → Answers × σ
  | .get r => ((w.answers.get? r).2, w.state)
  | .insert r text => (w.answers.insert r text, w.state)
  | .getOrCompute r compute => (w.answers.getOrCompute r w.state compute).2
  | .clear => (w.answers.clear, w.state)

/-- Performs an operation and logs it. -/
def step (w : Watched σ) (op : Operation ε σ) : Watched σ :=
  { answers := (w.after op).1, state := (w.after op).2, log := (w.event? op).toList ++ w.log }

/-- Performs operations in order. -/
def run (w : Watched σ) (ops : List (Operation ε σ)) : Watched σ :=
  ops.foldl step w

end Watched

/-! ### Shards follow the log -/

/-- The events that concern a shard: the uses of its requests, and the dropping of all entries. -/
def shardLog (a : Answers) (i : Nat) (log : Log Request String) : Log Request String :=
  log.filter fun event => event.key?.all (a.slot · == i)

/-- A store with shards of these capacities, each of which follows its part of a log. -/
structure Traces (a : Answers) (capacities : List Nat) (log : Log Request String) : Prop where
  /-- The capacities of the shards. -/
  capacities : a.shards.map Recent.capacity = capacities
  /-- Each shard follows the events that concern it. -/
  shards : ∀ (i : Nat) (shard : Recent Request String), a.shards[i]? = some shard →
    shard.Traces (a.shardLog i log)

section Traces

variable {a : Answers} {capacities : List Nat} {log : Log Request String} {r : Request}
  {event : Event Request String} {shard shard' : Recent Request String} {text : String}

theorem traces_ofCapacity (route : Request → Nat) (capacity shards : Nat) :
    (ofCapacity route capacity shards).Traces (shardCapacities capacity shards) [] where
  capacities := by simp [ofCapacity, Function.comp_def]
  shards := by
    intro i shard hshard
    obtain ⟨size, -, rfl⟩ := List.mem_map.mp (List.mem_of_getElem? hshard)
    exact Recent.traces_new size

/-- A request has no shard only if there is none at all. -/
theorem shards_eq_nil (h : a.shards[a.slot r]? = none) : a.shards = [] := by
  have hlength := List.getElem?_eq_none_iff.mp h
  rcases hshards : a.shards with _ | ⟨first, rest⟩
  · rfl
  · have hlt : a.slot r < a.shards.length :=
      Nat.mod_lt _ (by rw [hshards]; exact Nat.zero_lt_succ _)
    omega

/-- A store without shards follows every log. -/
theorem Traces.of_shards_eq_nil (h : a.Traces capacities log) (hshards : a.shards = [])
    (log' : Log Request String) : a.Traces capacities log' where
  capacities := h.capacities
  shards := by simp [hshards]

/-- The counts of a store have no part in what it follows. -/
theorem Traces.withCounts (h : a.Traces capacities log) (hits misses : Nat) :
    { a with hits, misses }.Traces capacities log :=
  ⟨h.capacities, h.shards⟩

/-- A use changes the shard of its request, and concerns no other. -/
theorem Traces.set (h : a.Traces capacities log) (hslot : a.shards[a.slot r]? = some shard)
    (hkey : event.key? = some r) (hcapacity : shard'.capacity = shard.capacity)
    (hshard : shard'.Traces (event :: a.shardLog (a.slot r) log)) :
    { a with shards := a.shards.set (a.slot r) shard' }.Traces capacities (event :: log) where
  capacities := by
    rw [List.map_set, hcapacity, ← h.capacities]
    refine List.ext_getElem? fun i => ?_
    by_cases hi : a.slot r = i
    · have hlt := (List.getElem?_eq_some_iff.mp hslot).1
      rw [← hi, List.getElem?_set_self (by simpa using hlt), List.getElem?_map, hslot]
      rfl
    · rw [List.getElem?_set_ne hi]
  shards := by
    intro i found hfound
    have hlog : shardLog { a with shards := a.shards.set (a.slot r) shard' } i (event :: log) =
        a.shardLog i (event :: log) := by
      simp [shardLog, slot]
    rw [hlog]
    by_cases hi : a.slot r = i
    · have hconcerned : a.shardLog i (event :: log) = event :: a.shardLog (a.slot r) log := by
        simp [shardLog, hkey, hi]
      have hsame : found = shard' := by
        rw [← hi] at hfound
        simpa [List.getElem?_set, (List.getElem?_eq_some_iff.mp hslot).1, eq_comm] using hfound
      rw [hconcerned, hsame]
      exact hshard
    · have hunconcerned : a.shardLog i (event :: log) = a.shardLog i log := by
        simp [shardLog, hkey, hi]
      rw [hunconcerned]
      rw [List.getElem?_set_ne hi] at hfound
      exact h.shards i found hfound

/-- Storing an answer follows. -/
theorem Traces.insert (h : a.Traces capacities log) (r : Request) (text : String) :
    (a.insert r text).Traces capacities (.stored r text :: log) := by
  unfold Answers.insert
  cases hslot : a.shards[a.slot r]? with
  | none => exact h.of_shards_eq_nil (shards_eq_nil hslot) _
  | some shard => exact h.set hslot rfl rfl ((h.shards _ _ hslot).insert r text)

/-- Finding an answer follows. -/
theorem Traces.get? (h : a.Traces capacities log) (hget : (a.get? r).1 = some text) :
    (a.get? r).2.Traces capacities (.found r :: log) := by
  unfold Answers.get? at hget ⊢
  cases hslot : a.shards[a.slot r]? with
  | none =>
    rw [hslot] at hget
    cases hget
  | some shard =>
    rw [hslot] at hget
    dsimp only at hget ⊢
    have hfound : ∀ text, (shard.get? r).1 = some text →
        (shard.get? r).2.Traces (.found r :: a.shardLog (a.slot r) log) :=
      fun _ hfound => (h.shards _ _ hslot).get? hfound
    have hcapacity := shard.capacity_get? r
    rcases hshard : shard.get? r with ⟨_ | text', shard'⟩ <;>
      rw [hshard] at hget hfound hcapacity
    · cases hget
    · exact (h.set hslot rfl hcapacity (hfound text' rfl)).withCounts _ _

/-- Dropping the answers follows. -/
theorem Traces.clear (h : a.Traces capacities log) :
    a.clear.Traces capacities (.cleared :: log) where
  capacities := by
    rw [← h.capacities]
    simp [Answers.clear, Recent.clear, Function.comp_def]
  shards := by
    intro i shard hshard
    obtain ⟨old, -, rfl⟩ := List.mem_map.mp (List.mem_of_getElem? hshard)
    have hlog : a.clear.shardLog i (.cleared :: log) = .cleared :: a.clear.shardLog i log := by
      simp [shardLog, Event.key?]
    rw [hlog]
    exact Recent.Traces.clear old _

/-- A lookup finds what the shard of the request keeps. -/
theorem Traces.get?_eq_some_iff (h : a.Traces capacities log) (r : Request) (text : String) :
    (a.get? r).1 = some text ↔
      ∃ shard, a.shards[a.slot r]? = some shard ∧
        (a.shardLog (a.slot r) log).Kept shard.capacity r text := by
  unfold Answers.get?
  cases hslot : a.shards[a.slot r]? with
  | none => simp
  | some shard =>
    have hpeek := (h.shards _ _ hslot).peek?_eq_some_iff r text
    rw [← shard.fst_get? r] at hpeek
    simp only [Option.some.injEq, exists_eq_left', ← hpeek]
    rcases hshard : shard.get? r with ⟨_ | text', shard'⟩ <;> simp

end Traces

namespace Watched

variable {ε σ : Type} {w : Watched σ} {capacities : List Nat}

/-- Asking for an answer finds it, or computes and stores it, or fails. -/
theorem getOrCompute_cases (w : Watched σ) (r : Request) (compute : σ → Except ε String × σ) :
    (∃ text, (w.answers.get? r).1 = some text ∧
      w.event? (.getOrCompute r compute) = some (.found r) ∧
      w.answers.getOrCompute r w.state compute = (.ok text, (w.answers.get? r).2, w.state)) ∨
    (∃ text, w.event? (.getOrCompute r compute) = some (.stored r text) ∧
      w.answers.getOrCompute r w.state compute =
        (.ok text, { w.answers with misses := w.answers.misses + 1 }.insert r text,
          (compute w.state).2)) ∨
    (∃ failure, w.event? (.getOrCompute r compute) = none ∧
      w.answers.getOrCompute r w.state compute =
        (.error failure, { w.answers with misses := w.answers.misses + 1 },
          (compute w.state).2)) := by
  cases hget : (w.answers.get? r).1 with
  | some text =>
    exact Or.inl ⟨text, rfl, by simp [event?, hget], getOrCompute_of_get?_eq_some hget⟩
  | none =>
    have hevent : w.event? (.getOrCompute r compute) =
        (compute w.state).1.toOption.map (.stored r ·) := by simp [event?, hget]
    rw [hevent]
    cases hresult : (compute w.state).1 with
    | ok text => exact Or.inr (Or.inl ⟨text, rfl, getOrCompute_of_ok hget hresult⟩)
    | error failure => exact Or.inr (Or.inr ⟨failure, rfl, getOrCompute_of_error hget hresult⟩)

/-- Every operation leaves a store that follows the log. -/
theorem traces_step (h : w.answers.Traces capacities w.log) (op : Operation ε σ) :
    (w.step op).answers.Traces capacities (w.step op).log := by
  cases op with
  | insert r text => exact h.insert r text
  | clear => exact h.clear
  | get r =>
    show (w.answers.get? r).2.Traces capacities ((w.event? (.get r)).toList ++ w.log)
    cases hget : (w.answers.get? r).1 with
    | none =>
      have hevent : w.event? (.get r : Operation ε σ) = none := by simp [event?, hget]
      rw [hevent, get?_of_eq_none hget]
      exact h.withCounts _ _
    | some text =>
      have hevent : w.event? (.get r : Operation ε σ) = some (.found r) := by simp [event?, hget]
      rw [hevent]
      exact h.get? hget
  | getOrCompute r compute =>
    show (w.answers.getOrCompute r w.state compute).2.1.Traces capacities
      ((w.event? (.getOrCompute r compute)).toList ++ w.log)
    rcases getOrCompute_cases w r compute with
      ⟨text, hget, hevent, hresult⟩ | ⟨text, hevent, hresult⟩ | ⟨failure, hevent, hresult⟩
    · rw [hevent, hresult]
      exact h.get? hget
    · rw [hevent, hresult]
      exact (h.withCounts _ _).insert r text
    · rw [hevent, hresult]
      exact h.withCounts _ _

/-- A computation that fails is no use. -/
theorem log_step_of_error {r : Request} {compute : σ → Except ε String × σ} {failure : ε}
    (h : (w.answers.getOrCompute r w.state compute).1 = .error failure) :
    (w.step (.getOrCompute r compute)).log = w.log := by
  rcases getOrCompute_cases w r compute with
    ⟨text, -, -, hresult⟩ | ⟨text, -, hresult⟩ | ⟨failure', hevent, -⟩
  · rw [hresult] at h
    cases h
  · rw [hresult] at h
    cases h
  · rw [step, hevent]
    rfl

/-- After every run each shard follows the uses of its requests. -/
theorem traces_run (route : Request → Nat) (capacity shards : Nat) (state : σ)
    (ops : List (Operation ε σ)) :
    ((start route capacity shards state).run ops).answers.Traces
      (shardCapacities capacity shards) ((start route capacity shards state).run ops).log := by
  have hrun : ∀ w : Watched σ, w.answers.Traces (shardCapacities capacity shards) w.log →
      (w.run ops).answers.Traces (shardCapacities capacity shards) (w.run ops).log := by
    induction ops with
    | nil => exact fun w h => h
    | cons op ops ih => exact fun w h => ih (w.step op) (traces_step h op)
  exact hrun _ (traces_ofCapacity route capacity shards)

end Watched

/-! ### Stores of one shard -/

/-- A store of at most one shard has one of the whole capacity, or none and no capacity. -/
theorem shardCapacities_of_shardCount_le_one {capacity shards : Nat}
    (h : shardCount capacity shards ≤ 1) :
    shardCapacities capacity shards = if capacity = 0 then [] else [capacity] := by
  by_cases hcapacity : capacity = 0
  · simp [shardCapacities, shardCount, hcapacity]
  · have hone : shardCount capacity shards = 1 := by
      unfold shardCount at h ⊢
      omega
    simp [shardCapacities, hone, hcapacity, Nat.mod_one]

/-- A store of at most one shard finds what its capacity keeps. -/
theorem Traces.get?_eq_some_iff_of_shardCount_le_one {a : Answers} {log : Log Request String}
    {capacity shards : Nat} (h : a.Traces (shardCapacities capacity shards) log)
    (hone : shardCount capacity shards ≤ 1) (r : Request) (text : String) :
    (a.get? r).1 = some text ↔ log.Kept capacity r text := by
  have hcapacities := h.capacities
  rw [shardCapacities_of_shardCount_le_one hone] at hcapacities
  rw [h.get?_eq_some_iff]
  by_cases hcapacity : capacity = 0
  · -- Without capacity there is no shard, and no key is used recently enough.
    have hshards : a.shards = [] := by simpa [hcapacity] using hcapacities
    constructor
    · rintro ⟨shard, hslot, -⟩
      simp [hshards] at hslot
    · intro hkept
      have := hkept.recent
      omega
  · obtain ⟨shard, hshards, hsize⟩ : ∃ shard, a.shards = [shard] ∧ shard.capacity = capacity := by
      rw [if_neg hcapacity] at hcapacities
      simpa [List.map_eq_singleton_iff] using hcapacities
    have hslot : ∀ r, a.slot r = 0 := by simp [slot, hshards, Nat.mod_one]
    have hlog : a.shardLog 0 log = log := by
      simp [shardLog, hslot]
    simp [hslot, hshards, hlog, hsize]

end Answers

end Phrasebook

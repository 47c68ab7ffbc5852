import Phrasebook.Cache.Answers

/-!
# What the caches hold

A property of stored entries survives every use of a store: looking up only moves entries, and
storing adds one entry at most. `Recent.Holds` and `Answers.Holds` state such a property of all
entries. The module proves, for either kind of store:

* a lookup returns a value with the property and keeps it for all entries;
* storing keeps the property if the new entry has it;
* `Answers.getOrCompute_eq`: the result of a request is a stored text with the property or the
  computed one.

Last, a failed request is counted as a miss and leaves the entries as they are
(`Answers.getOrCompute_of_eq_error`), and a dropped store has no entries (`Answers.size_clear`).
-/

namespace Phrasebook

namespace Recent

variable {κ α : Type} {P : κ → α → Prop} {r : Recent κ α}

/-- Every entry has the property `P`. -/
def Holds (P : κ → α → Prop) (r : Recent κ α) : Prop :=
  ∀ entry ∈ r.entries, P entry.1 entry.2

/-- A list without entries has every property. -/
theorem holds_of_entries_eq_nil (h : r.entries = []) : r.Holds P := by
  intro entry hentry
  rw [h] at hentry
  cases hentry

/-- A dropped list has every property. -/
theorem holds_clear : r.clear.Holds P :=
  holds_of_entries_eq_nil rfl

variable [DecidableEq κ]

/-- The value stored under a key has the property with it. -/
theorem Holds.of_peek?_eq_some (h : r.Holds P) {key : κ} {value : α}
    (hpeek : r.peek? key = some value) : P key value := by
  obtain ⟨before, after, hsplit, -⟩ := List.lookup_eq_some_iff.mp hpeek
  exact h (key, value) (by rw [hsplit]; simp)

/-- Making an entry with the property the most recent one keeps the property. -/
theorem Holds.touch (h : r.Holds P) {key : κ} {value : α} (hentry : P key value) :
    (r.touch key value).Holds P := by
  intro entry hmem
  rcases List.mem_cons.mp hmem with rfl | hold
  · exact hentry
  · exact h entry (List.mem_filter.mp hold).1

/-- Storing an entry with the property keeps the property. -/
theorem Holds.insert (h : r.Holds P) {key : κ} {value : α} (hentry : P key value) :
    (r.insert key value).Holds P :=
  fun entry hmem => h.touch hentry entry (List.mem_of_mem_take hmem)

/-- A lookup keeps the property, and a value it finds has the property. -/
theorem Holds.get? (h : r.Holds P) (key : κ) :
    (∀ value, (r.get? key).1 = some value → P key value) ∧ (r.get? key).2.Holds P := by
  unfold Recent.get?
  cases hpeek : r.peek? key with
  | none => exact ⟨by simp, h⟩
  | some value =>
    have hentry : P key value := h.of_peek?_eq_some hpeek
    exact ⟨by simp [hentry], h.touch hentry⟩

end Recent

namespace Answers

variable {P : Request → String → Prop} {a : Answers}

/-- Every stored answer has the property `P` with its request. -/
def Holds (P : Request → String → Prop) (a : Answers) : Prop :=
  ∀ shard ∈ a.shards, shard.Holds P

/-- A new store has every property. -/
theorem holds_ofCapacity (route : Request → Nat) (capacity shards : Nat) :
    (ofCapacity route capacity shards).Holds P := by
  intro shard hshard
  obtain ⟨size, -, rfl⟩ := List.mem_map.mp hshard
  exact Recent.holds_of_entries_eq_nil rfl

/-- A dropped store has every property. -/
theorem holds_clear : a.clear.Holds P := by
  intro shard hshard
  obtain ⟨old, -, rfl⟩ := List.mem_map.mp hshard
  exact Recent.holds_clear

/-- Replacing a shard by one with the property keeps the property. -/
theorem Holds.set (h : a.Holds P) {shard : Recent Request String} (hshard : shard.Holds P)
    (i : Nat) : ∀ s ∈ a.shards.set i shard, s.Holds P := by
  intro s hs
  rcases List.mem_or_eq_of_mem_set hs with hold | rfl
  · exact h s hold
  · exact hshard

/-- A lookup keeps the property, and a text it finds has the property. -/
theorem Holds.get? (h : a.Holds P) (r : Request) :
    (∀ text, (a.get? r).1 = some text → P r text) ∧ (a.get? r).2.Holds P := by
  unfold Answers.get?
  cases hslot : a.shards[a.slot r]? with
  | none => exact ⟨by simp, h⟩
  | some shard =>
    obtain ⟨hfound, hkept⟩ := (h shard (List.mem_of_getElem? hslot)).get? r
    rcases hget : shard.get? r with ⟨_ | text, shard'⟩ <;> rw [hget] at hfound hkept <;>
      simp only [hget]
    · exact ⟨by simp, h⟩
    · exact ⟨hfound, h.set hkept _⟩

/-- Storing an answer with the property keeps the property. -/
theorem Holds.insert (h : a.Holds P) {r : Request} {text : String} (hentry : P r text) :
    (a.insert r text).Holds P := by
  unfold Answers.insert
  cases hslot : a.shards[a.slot r]? with
  | none => exact h
  | some shard => exact h.set ((h shard (List.mem_of_getElem? hslot)).insert hentry) _

variable {ε σ : Type} (state : σ) (compute : σ → Except ε String × σ)

/-- A request is answered from the store, where the answer has the property and nothing is computed,
or by the computation. -/
theorem Holds.getOrCompute_eq (h : a.Holds P) (r : Request) :
    (∃ text, P r text ∧ (a.getOrCompute r state compute).1 = .ok text ∧
        (a.getOrCompute r state compute).2.2 = state) ∨
      ((a.getOrCompute r state compute).1 = (compute state).1 ∧
        (a.getOrCompute r state compute).2.2 = (compute state).2) := by
  unfold Answers.getOrCompute
  rcases hget : a.get? r with ⟨_ | text, a'⟩
  -- Nothing is stored: only a computed text is stored, and either way the computation answers.
  · right
    rcases hcompute : compute state with ⟨_ | text, state'⟩ <;> simp
  · left
    exact ⟨text, (h.get? r).1 text (by rw [hget]), rfl, rfl⟩

/-- Answering a request keeps the property if the computed text has it. -/
theorem Holds.getOrCompute (h : a.Holds P) (r : Request)
    (hcompute : ∀ text, (compute state).1 = .ok text → P r text) :
    (a.getOrCompute r state compute).2.1.Holds P := by
  unfold Answers.getOrCompute
  have hkept := (h.get? r).2
  rcases hget : a.get? r with ⟨_ | text, a'⟩ <;> rw [hget] at hkept
  · rcases hresult : compute state with ⟨failure | text, state'⟩
    · exact hkept
    · exact hkept.insert (hcompute text (by rw [hresult]))
  · exact hkept

/-- A lookup that finds nothing is counted, and leaves the entries and their order as they are. -/
theorem get?_of_eq_none {r : Request} (h : (a.get? r).1 = none) :
    (a.get? r).2 = { a with misses := a.misses + 1 } := by
  unfold Answers.get? at h ⊢
  cases hslot : a.shards[a.slot r]? with
  | none => rfl
  | some shard =>
    rw [hslot] at h
    dsimp only at h ⊢
    rcases hget : shard.get? r with ⟨_ | text, shard'⟩
    · rfl
    · rw [hget] at h
      cases h

/-- A request that fails is counted as a miss, and leaves the entries and their order as they are. -/
theorem getOrCompute_of_eq_error {r : Request} {failure : ε}
    (h : (a.getOrCompute r state compute).1 = .error failure) :
    (a.getOrCompute r state compute).2.1 = { a with misses := a.misses + 1 } := by
  unfold Answers.getOrCompute at h ⊢
  rcases hget : a.get? r with ⟨_ | text, a'⟩
  · -- Nothing was stored, and a computation that failed stores nothing.
    have hmiss : a' = { a with misses := a.misses + 1 } := by
      have hnone := get?_of_eq_none (a := a) (r := r) (by rw [hget])
      rwa [hget] at hnone
    rw [hget] at h
    dsimp only at h ⊢
    rcases hcompute : compute state with ⟨failure' | text, state'⟩
    · exact hmiss
    · rw [hcompute] at h
      cases h
  · rw [hget] at h
    cases h

/-- A dropped store has no entries. -/
theorem size_clear (a : Answers) : a.clear.size = 0 := by
  unfold size clear
  induction a.shards with
  | nil => rfl
  | cons shard shards ih => simpa [Recent.size, Recent.clear] using ih

end Answers

end Phrasebook

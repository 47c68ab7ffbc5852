import Mathlib.Data.Finset.Card
import Phrasebook.Cache.Recent

/-!
# Recent entries and the history of their uses

A key is used when a value is stored under it and when a lookup finds it. What a bounded list keeps
is described here by the log of its uses alone, without the list: a value is kept under a key if it
is the last one stored there and fewer other keys than the list has room for were used since the key
was.

* `Recent.Log.Kept`: that description, over logs with the latest event first;
* `Recent.Log.recency`: the keys of a log in the order of their last uses;
* `Recent.Traces`: a list holds the first keys of that order, each with the value stored last;
* `Recent.Traces.peek?_eq_some_iff`: such a list holds what is kept, and nothing else.

Storing, finding and dropping keep `Recent.Traces` (`Traces.insert`, `Traces.get?`, `Traces.clear`).
-/

namespace Phrasebook

namespace Recent

variable {κ α : Type}

/-- An event in the history of a list of recent entries. -/
inductive Event (κ α : Type) where
  /-- A value was stored under a key. -/
  | stored (key : κ) (value : α)
  /-- A lookup found a key. -/
  | found (key : κ)
  /-- All entries were dropped. -/
  | cleared

/-- The key that an event is a use of. -/
def Event.key? : Event κ α → Option κ
  | .stored key _ => some key
  | .found key => some key
  | .cleared => none

/-- What happened to a list of recent entries, the latest event first. -/
abbrev Log (κ α : Type) := List (Event κ α)

namespace Log

variable [DecidableEq κ]

/-- The value that was stored last under a key, if any was since the entries were dropped. -/
def lastStored? (key : κ) : Log κ α → Option α
  | [] => none
  | .cleared :: _ => none
  | .found _ :: log => lastStored? key log
  | .stored other value :: log => if other = key then some value else lastStored? key log

/-- The keys used since the last use of a key. -/
def usedSince (key : κ) (log : Log κ α) : List κ :=
  (log.filterMap Event.key?).takeWhile (· != key)

/-- Whether a list of this capacity keeps a value under a key: no other was stored there later, and
fewer distinct other keys than the list has room for were used since the key was. -/
structure Kept (capacity : Nat) (log : Log κ α) (key : κ) (value : α) : Prop where
  /-- The value is the one stored last. -/
  stored : log.lastStored? key = some value
  /-- The key was used recently. -/
  recent : (log.usedSince key).toFinset.card < capacity

instance [DecidableEq α] (capacity : Nat) (log : Log κ α) (key : κ) (value : α) :
    Decidable (Kept capacity log key value) :=
  decidable_of_iff (log.lastStored? key = some value ∧ (log.usedSince key).toFinset.card < capacity)
    ⟨fun h => ⟨h.1, h.2⟩, fun h => ⟨h.stored, h.recent⟩⟩

/-- The keys used since the entries were dropped, each once, the most recently used first. -/
def recency : Log κ α → List κ
  | [] => []
  | event :: log =>
    match event.key? with
    | none => []
    | some key => key :: (recency log).filter (· != key)

/-! ### The order of last uses -/

variable {log : Log κ α} {event : Event κ α} {key : κ}

theorem recency_cons (h : event.key? = some key) :
    recency (event :: log) = key :: (recency log).filter (· != key) := by
  rw [recency, h]

theorem usedSince_cons_self (h : event.key? = some key) : usedSince key (event :: log) = [] := by
  simp [usedSince, h]

theorem usedSince_cons_of_ne {other : κ} (h : event.key? = some other) (hne : other ≠ key) :
    usedSince key (event :: log) = other :: usedSince key log := by
  simp [usedSince, h, hne]

theorem nodup_recency (log : Log κ α) : (recency log).Nodup := by
  induction log with
  | nil => exact List.nodup_nil
  | cons event log ih =>
    cases hkey : event.key? with
    | none => simp [recency, hkey]
    | some key =>
      rw [recency_cons hkey]
      exact List.nodup_cons.mpr ⟨by simp, ih.filter _⟩

/-- A key under which a value was stored was used. -/
theorem mem_recency_of_lastStored? {value : α} (h : log.lastStored? key = some value) :
    key ∈ recency log := by
  induction log with
  | nil => cases h
  | cons event log ih =>
    cases event with
    | cleared => cases h
    | found other =>
      rw [recency_cons rfl]
      by_cases hother : key = other
      · simp [hother]
      · simpa [hother] using ih h
    | stored other stored =>
      rw [recency_cons rfl]
      by_cases hother : key = other
      · simp [hother]
      · rw [lastStored?, if_neg (Ne.symm hother)] at h
        simpa [hother] using ih h

theorem takeWhile_filter_ne {other : κ} (h : other ≠ key) (keys : List κ) :
    (keys.filter (· != other)).takeWhile (· != key) =
      (keys.takeWhile (· != key)).filter (· != other) := by
  induction keys with
  | nil => rfl
  | cons first keys ih =>
    by_cases hother : first = other
    · simp [hother, h, ih]
    · by_cases hkey : first = key
      · simp [hkey, Ne.symm h]
      · simp [hother, hkey, ih]

/-- The keys that precede a key in the order of last uses are those used since. -/
theorem mem_takeWhile_recency_iff (h : key ∈ recency log) (other : κ) :
    other ∈ (recency log).takeWhile (· != key) ↔ other ∈ usedSince key log := by
  -- By induction on the log: the latest use leads both lists, unless it is one of the key itself.
  induction log with
  | nil => cases h
  | cons event log ih =>
    cases hused : event.key? with
    | none => simp [recency, hused] at h
    | some latest =>
      rw [recency_cons hused] at h ⊢
      by_cases hlatest : latest = key
      · rw [hlatest] at hused ⊢
        simp [usedSince_cons_self hused]
      · have hmem : key ∈ recency log := by simpa [Ne.symm hlatest] using h
        rw [usedSince_cons_of_ne hused hlatest, List.mem_cons, ← ih hmem]
        simp only [List.takeWhile_cons, bne_iff_ne, ne_eq, hlatest, not_false_eq_true, if_true,
          takeWhile_filter_ne hlatest, List.mem_cons, List.mem_filter]
        by_cases hother : other = latest <;> simp [hother]

theorem mem_take_iff_length_takeWhile {keys : List κ} (h : key ∈ keys) (n : Nat) :
    key ∈ keys.take n ↔ (keys.takeWhile (· != key)).length < n := by
  induction keys generalizing n with
  | nil => cases h
  | cons first keys ih =>
    cases n with
    | zero => simp
    | succ n =>
      by_cases hfirst : first = key
      · simp [hfirst]
      · have hmem : key ∈ keys := by simpa [Ne.symm hfirst] using h
        simp [hfirst, Ne.symm hfirst, ih hmem]

/-- A key is among the first of the order of last uses if few other keys were used since. -/
theorem mem_take_recency_iff (h : key ∈ recency log) (n : Nat) :
    key ∈ (recency log).take n ↔ (usedSince key log).toFinset.card < n := by
  have hnodup : ((recency log).takeWhile (· != key)).Nodup :=
    (nodup_recency log).sublist (List.takeWhile_sublist _)
  have hsame : ((recency log).takeWhile (· != key)).toFinset = (usedSince key log).toFinset := by
    ext other
    simpa using mem_takeWhile_recency_iff h other
  rw [mem_take_iff_length_takeWhile h, ← List.toFinset_card_of_nodup hnodup, hsame]

end Log

/-! ### Lists that follow a log -/

section Traces

open Log

variable [DecidableEq κ] {r : Recent κ α} {log : Log κ α} {key : κ} {value : α}

/-- A list of recent entries and a log of what happened to it. -/
structure Traces (r : Recent κ α) (log : Log κ α) : Prop where
  /-- The keys are the most recently used ones, in this order. -/
  keys : r.entries.map Prod.fst = (recency log).take r.capacity
  /-- Every key has the value stored last. -/
  values : ∀ entry ∈ r.entries, log.lastStored? entry.1 = some entry.2

/-- A lookup finds the entry of the key. -/
theorem fst_get? (r : Recent κ α) (key : κ) : (r.get? key).1 = r.peek? key := by
  unfold Recent.get?
  split <;> simp [*]

theorem capacity_get? (r : Recent κ α) (key : κ) : (r.get? key).2.capacity = r.capacity := by
  unfold Recent.get?
  split <;> rfl

/-- A list that follows a log holds what the log says is kept. -/
theorem Traces.peek?_eq_some_iff (h : r.Traces log) (key : κ) (value : α) :
    r.peek? key = some value ↔ log.Kept r.capacity key value := by
  have hkeys : key ∈ r.entries.map Prod.fst ↔ key ∈ (recency log).take r.capacity := by
    rw [h.keys]
  constructor
  · intro hpeek
    obtain ⟨before, after, hsplit, -⟩ := List.lookup_eq_some_iff.mp hpeek
    have hentry : (key, value) ∈ r.entries := by simp [hsplit]
    have htake := hkeys.mp (List.mem_map_of_mem hentry)
    exact ⟨h.values _ hentry, (mem_take_recency_iff (List.mem_of_mem_take htake) _).mp htake⟩
  · intro hkept
    have hrecent := mem_recency_of_lastStored? hkept.stored
    have hmem := hkeys.mpr ((mem_take_recency_iff hrecent _).mpr hkept.recent)
    -- Some value is found, and it can only be the one stored last.
    cases hpeek : r.peek? key with
    | none =>
      obtain ⟨⟨other, found⟩, hentry, rfl⟩ := List.mem_map.mp hmem
      have hne := List.lookup_eq_none_iff.mp hpeek _ hentry
      simp at hne
    | some found =>
      obtain ⟨before, after, hsplit, -⟩ := List.lookup_eq_some_iff.mp hpeek
      have hlast := h.values (key, found) (by simp [hsplit])
      rw [← hkept.stored, hlast]

theorem traces_new (capacity : Nat) : ({ capacity } : Recent κ α).Traces [] :=
  ⟨by simp [recency], by simp⟩

/-- Dropping the entries follows. -/
theorem Traces.clear (r : Recent κ α) (log : Log κ α) : r.clear.Traces (.cleared :: log) :=
  ⟨by simp [Recent.clear, recency, Event.key?], by simp [Recent.clear]⟩

theorem take_cons_filter_take {keys : List κ} (h : keys.Nodup) (key : κ) (n : Nat) :
    (key :: (keys.take n).filter (· != key)).take n = (key :: keys.filter (· != key)).take n := by
  -- At most one key is removed from the first `n`, so the first `n - 1` that are left are the same.
  cases n with
  | zero => rfl
  | succ n =>
    rw [List.take_succ_cons, List.take_succ_cons]
    congr 1
    induction keys generalizing n with
    | nil => rfl
    | cons first keys ih =>
      obtain ⟨hfirst, hrest⟩ := List.nodup_cons.mp h
      by_cases heq : first = key
      · rw [heq] at hfirst
        have hall : ∀ other ∈ keys, (other != key) = true := by
          intro other hother
          exact bne_iff_ne.mpr fun hsame => hfirst (hsame ▸ hother)
        have htake : ∀ other ∈ keys.take n, (other != key) = true :=
          fun other hother => hall other (List.mem_of_mem_take hother)
        simp [heq, List.filter_eq_self.mpr hall, List.filter_eq_self.mpr htake]
      · cases n with
        | zero => simp
        | succ n =>
          have hne : (first != key) = true := bne_iff_ne.mpr heq
          simp only [List.take_succ_cons, List.filter_cons, hne, if_true]
          rw [ih hrest]

theorem map_fst_without (r : Recent κ α) (key : κ) :
    (r.without key).map Prod.fst = (r.entries.map Prod.fst).filter (· != key) := by
  simp [without, List.filter_map, Function.comp_def]

/-- Storing a value follows any event that is a use of its key and after which it is the value
stored last. -/
theorem Traces.use (h : r.Traces log) {event : Event κ α} (hkey : event.key? = some key)
    (hself : lastStored? key (event :: log) = some value)
    (hother : ∀ other, other ≠ key →
      lastStored? other (event :: log) = log.lastStored? other) :
    (r.insert key value).Traces (event :: log) where
  keys := by
    have hmap : (r.insert key value).entries.map Prod.fst =
        (key :: ((recency log).take r.capacity).filter (· != key)).take r.capacity := by
      simp [Recent.insert, map_fst_without, h.keys]
    rw [hmap, take_cons_filter_take (nodup_recency log), recency_cons hkey]
    rfl
  values := by
    intro entry hentry
    rcases List.mem_cons.mp (List.mem_of_mem_take hentry) with rfl | hold
    · exact hself
    · obtain ⟨hmem, hne⟩ := List.mem_filter.mp hold
      rw [hother entry.1 (bne_iff_ne.mp hne)]
      exact h.values entry hmem

/-- Storing a value follows. -/
theorem Traces.insert (h : r.Traces log) (key : κ) (value : α) :
    (r.insert key value).Traces (.stored key value :: log) := by
  refine h.use rfl (by simp [lastStored?]) ?_
  intro other hother
  simp [lastStored?, Ne.symm hother]

/-- A list that follows a log has no more entries than room. -/
theorem Traces.size_le (h : r.Traces log) : r.size ≤ r.capacity := by
  have hlength := congrArg List.length h.keys
  rw [List.length_map] at hlength
  rw [size, hlength]
  exact List.length_take_le _ _

/-- Making a kept entry the most recent one is storing it again: nothing has to be dropped. -/
theorem Traces.touch_eq_insert (h : r.Traces log) (hpeek : r.peek? key = some value) :
    r.touch key value = r.insert key value := by
  have hlength : r.entries.length ≤ r.capacity := h.size_le
  obtain ⟨before, after, hsplit, -⟩ := List.lookup_eq_some_iff.mp hpeek
  have hless : (r.without key).length < r.entries.length := by
    rw [without]
    refine List.length_filter_lt_length_iff_exists.mpr ⟨(key, value), by simp [hsplit], by simp⟩
  have hall : ((key, value) :: r.without key).length ≤ r.capacity := by
    rw [List.length_cons]
    omega
  rw [touch, Recent.insert, List.take_of_length_le hall]

/-- Finding a key follows. -/
theorem Traces.get? (h : r.Traces log) (hget : (r.get? key).1 = some value) :
    (r.get? key).2.Traces (.found key :: log) := by
  have hpeek : r.peek? key = some value := (r.fst_get? key).symm.trans hget
  have hlast := ((h.peek?_eq_some_iff key value).mp hpeek).stored
  have htouch : (r.get? key).2 = r.insert key value := by
    rw [Recent.get?, hpeek]
    exact h.touch_eq_insert hpeek
  rw [htouch]
  exact h.use rfl hlast fun _ _ => rfl

end Traces

end Recent

end Phrasebook

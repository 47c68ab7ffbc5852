/-!
# Bounded lists of recent entries

Entries are kept in the order of their last use, the most recent first. Storing an entry in a full
list drops the one that was not used for the longest time.
-/

namespace Phrasebook

/-- The most recently used entries, at most `capacity` of them. -/
structure Recent (κ α : Type) where
  /-- How many entries are kept. -/
  capacity : Nat
  /-- The entries, the most recently used first. -/
  entries : List (κ × α) := []

namespace Recent

variable {κ α : Type} [DecidableEq κ]

/-- The value stored under a key. -/
def peek? (r : Recent κ α) (key : κ) : Option α :=
  r.entries.lookup key

/-- The other entries, without a key. -/
def without (r : Recent κ α) (key : κ) : List (κ × α) :=
  r.entries.filter fun entry => entry.1 != key

/-- Makes an entry the most recent one. -/
def touch (r : Recent κ α) (key : κ) (value : α) : Recent κ α :=
  { r with entries := (key, value) :: r.without key }

theorem lookup_without (r : Recent κ α) (key other : κ) :
    (r.without key).lookup other = if other = key then none else r.peek? other := by
  unfold without peek?
  induction r.entries with
  | nil => simp
  | cons entry rest ih =>
    rw [List.filter_cons]
    split <;> grind

/-- Making an entry the most recent one changes no other entry. -/
theorem peek?_touch (r : Recent κ α) (key other : κ) (value : α) :
    (r.touch key value).peek? other = if other = key then some value else r.peek? other := by
  have := r.lookup_without key other
  simp only [peek?, touch] at *
  grind

/-- Looks a key up. Finding it is a use. -/
def get? (r : Recent κ α) (key : κ) : Option α × Recent κ α :=
  match r.peek? key with
  | some value => (some value, r.touch key value)
  | none => (none, r)

/-- Stores a value under a key, which is a use, and drops what exceeds the capacity. -/
def insert (r : Recent κ α) (key : κ) (value : α) : Recent κ α :=
  { r with entries := ((key, value) :: r.without key).take r.capacity }

/-- Drops all entries. -/
def clear (r : Recent κ α) : Recent κ α :=
  { r with entries := [] }

/-- The number of entries. -/
def size (r : Recent κ α) : Nat :=
  r.entries.length

/-- A list never holds more than its capacity after an entry was stored. -/
theorem size_insert_le (r : Recent κ α) (key : κ) (value : α) :
    (r.insert key value).size ≤ r.capacity :=
  List.length_take_le _ _

end Recent

end Phrasebook

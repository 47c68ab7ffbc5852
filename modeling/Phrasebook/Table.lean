/-!
# Tables

A table maps texts to values. Its entries are listed in increasing order of their keys, so two
tables that hold the same entries are equal.
-/

namespace Phrasebook

/-- A finite map from texts, listed in increasing order of the keys. -/
structure Table (α : Type) where
  /-- The keys with their values. -/
  entries : List (String × α) := []
  deriving DecidableEq

namespace Table

variable {α : Type}

/-- The table without entries. -/
def empty : Table α := {}

instance : Inhabited (Table α) := ⟨empty⟩

/-- Puts an entry at its place in an ordered list, over any entry of the same key. -/
def insertEntry (key : String) (value : α) : List (String × α) → List (String × α)
  | [] => [(key, value)]
  | (k, v) :: rest =>
    if key < k then (key, value) :: (k, v) :: rest
    else if key = k then (key, value) :: rest
    else (k, v) :: insertEntry key value rest

/-- Binds a key to a value, over any earlier binding. -/
def insert (t : Table α) (key : String) (value : α) : Table α :=
  ⟨insertEntry key value t.entries⟩

/-- Removes a key. -/
def erase (t : Table α) (key : String) : Table α :=
  ⟨t.entries.filter fun entry => entry.1 != key⟩

/-- The value bound to a key. -/
def get? (t : Table α) (key : String) : Option α :=
  t.entries.lookup key

theorem lookup_insertEntry (key other : String) (value : α) (entries : List (String × α)) :
    (insertEntry key value entries).lookup other =
      if other = key then some value else entries.lookup other := by
  induction entries with
  | nil => grind [insertEntry]
  | cons entry rest ih =>
    obtain ⟨k, v⟩ := entry
    rw [insertEntry]
    split
    · grind
    · split <;> grind

theorem lookup_filter_ne (key other : String) (entries : List (String × α)) :
    (entries.filter fun entry => entry.1 != key).lookup other =
      if other = key then none else entries.lookup other := by
  induction entries with
  | nil => simp
  | cons entry rest ih =>
    rw [List.filter_cons]
    split <;> grind

/-- Binding a key changes what is bound to it and nothing else. -/
theorem get?_insert (t : Table α) (key other : String) (value : α) :
    (t.insert key value).get? other = if other = key then some value else t.get? other :=
  lookup_insertEntry key other value t.entries

/-- Removing a key leaves what is bound to the others. -/
theorem get?_erase (t : Table α) (key other : String) :
    (t.erase key).get? other = if other = key then none else t.get? other :=
  lookup_filter_ne key other t.entries

/-- Removing a key that is not bound changes nothing. -/
theorem erase_of_get?_eq_none {t : Table α} {key : String} (h : t.get? key = none) :
    t.erase key = t := by
  rw [erase, List.filter_eq_self.mpr]
  intro entry hentry
  have hne : (key == entry.1) = false := by simpa using List.lookup_eq_none_iff.mp h entry hentry
  exact bne_iff_ne.mpr (Ne.symm (beq_eq_false_iff_ne.mp hne))

/-- Whether a key is bound. -/
def contains (t : Table α) (key : String) : Bool :=
  (t.get? key).isSome

/-- The bound keys in increasing order. -/
def keys (t : Table α) : List String :=
  t.entries.map Prod.fst

/-- The number of bound keys. -/
def size (t : Table α) : Nat :=
  t.entries.length

/-- The table of a list of bindings; of several bindings of one key the last counts. -/
def ofList (bindings : List (String × α)) : Table α :=
  bindings.foldl (fun t (key, value) => t.insert key value) empty

end Table

end Phrasebook

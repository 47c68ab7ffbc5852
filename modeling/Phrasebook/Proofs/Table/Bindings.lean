import Mathlib.Data.List.Induction
import Mathlib.Data.List.Nodup
import Mathlib.Data.String.Basic
import Phrasebook.Table

/-!
# Tables and the bindings they come from

A list of bindings gives a name the value that is bound to it last, and the table of the list holds
just this: each name once, in increasing order, with the value bound last. So two lists make the
same table if and only if they give the same values, however their bindings are ordered or repeated.

* `Table.LastBinding`: the value that a list of bindings gives a name;
* `Table.Lists`: the bindings of a mapping, gone through in any order;
* `Table.Ordered`: the entries of a table are in strictly increasing order of their names;
* `Table.Ordered.ext`: ordered tables that hold the same entries are equal;
* `Table.ofList_eq_iff`: two lists make the same table if and only if they give the same values.
-/

namespace Phrasebook

namespace Table

variable {α : Type}

/-- The last binding of a name in a list gives it this value. -/
def LastBinding (bindings : List (String × α)) (name : String) (value : α) : Prop :=
  ∃ before after, bindings = before ++ (name, value) :: after ∧ name ∉ after.map Prod.fst

/-- A list goes through the mapping that other bindings define: it has each name once, with the
value that they give it last. -/
structure Lists (order bindings : List (String × α)) : Prop where
  /-- No name comes twice. -/
  nodup : (order.map Prod.fst).Nodup
  /-- The list has the names of the mapping with their values. -/
  mem_iff : ∀ name value, (name, value) ∈ order ↔ LastBinding bindings name value

/-! ### Bindings -/

section Bindings

variable {bindings other : List (String × α)} {name : String} {value : α}

/-- The last binding of a name is the last of all its bindings. -/
theorem lastBinding_iff_getLast? :
    LastBinding bindings name value ↔
      (bindings.filter fun binding => binding.1 = name).getLast? = some (name, value) := by
  rw [List.getLast?_filter, List.find?_eq_some_iff_append]
  -- What comes after a binding comes before it in the reversed list.
  constructor
  · rintro ⟨before, after, rfl, hafter⟩
    refine ⟨by simp, after.reverse, before.reverse, by simp, ?_⟩
    intro binding hbinding
    have hne : binding.1 ≠ name := fun hname =>
      hafter (hname ▸ List.mem_map_of_mem (List.mem_reverse.mp hbinding))
    simp [hne]
  · rintro ⟨-, after, before, hsplit, hafter⟩
    refine ⟨before.reverse, after.reverse, ?_, ?_⟩
    · rw [← List.reverse_reverse bindings, hsplit]
      simp
    · intro hmem
      obtain ⟨binding, hbinding, hname⟩ := List.mem_map.mp hmem
      have hne := hafter binding (List.mem_reverse.mp hbinding)
      simp [hname] at hne

theorem not_lastBinding_nil : ¬ LastBinding ([] : List (String × α)) name value := by
  simp [lastBinding_iff_getLast?]

/-- A binding that is added counts for its name, and for no other. -/
theorem lastBinding_concat {key : String} {added : α} :
    LastBinding (bindings ++ [(key, added)]) name value ↔
      if name = key then added = value else LastBinding bindings name value := by
  rw [lastBinding_iff_getLast?, List.filter_append]
  by_cases hname : name = key
  · simp [hname]
  · simp [hname, Ne.symm hname, lastBinding_iff_getLast?]

/-- A name has a last binding if and only if it has any. -/
theorem exists_lastBinding_iff :
    (∃ value, LastBinding bindings name value) ↔ name ∈ bindings.map Prod.fst := by
  induction bindings using List.reverseRecOn with
  | nil => simp [not_lastBinding_nil]
  | append_singleton bindings binding ih =>
    obtain ⟨key, added⟩ := binding
    simp only [lastBinding_concat]
    by_cases hname : name = key
    · simp [hname]
    · simp [hname, ih]

/-- In a list without repeated names every binding is the last of its name. -/
theorem lastBinding_iff_mem (h : (bindings.map Prod.fst).Nodup) :
    LastBinding bindings name value ↔ (name, value) ∈ bindings := by
  constructor
  · rintro ⟨before, after, rfl, -⟩
    simp
  · intro hmem
    obtain ⟨before, after, rfl⟩ := List.append_of_mem hmem
    rw [List.map_append, List.map_cons] at h
    exact ⟨before, after, rfl, (List.nodup_cons.mp (List.nodup_append.mp h).2.1).1⟩

end Bindings

/-! ### The order of the entries -/

/-- The names are in strictly increasing order. -/
def Ordered (t : Table α) : Prop :=
  t.entries.Pairwise fun a b => a.1 < b.1

section Ordered

variable {t u : Table α} {name : String} {value : α}

theorem mem_insertEntry {key : String} {added : α} {entries : List (String × α)}
    {entry : String × α} (h : entry ∈ insertEntry key added entries) :
    entry = (key, added) ∨ entry ∈ entries := by
  induction entries with
  | nil => simpa [insertEntry] using h
  | cons first rest ih =>
    obtain ⟨k, v⟩ := first
    rw [insertEntry] at h
    split at h
    · simpa using h
    split at h
    · rcases List.mem_cons.mp h with heq | hrest
      · exact Or.inl heq
      · exact Or.inr (List.mem_cons_of_mem _ hrest)
    · rcases List.mem_cons.mp h with heq | hrest
      · exact Or.inr (heq ▸ List.mem_cons_self)
      · exact (ih hrest).imp_right (List.mem_cons_of_mem _)

/-- An entry is put at its place. -/
theorem pairwise_insertEntry {entries : List (String × α)}
    (h : entries.Pairwise fun a b => a.1 < b.1) (key : String) (added : α) :
    (insertEntry key added entries).Pairwise fun a b => a.1 < b.1 := by
  induction entries with
  | nil => simp [insertEntry]
  | cons first rest ih =>
    obtain ⟨k, v⟩ := first
    obtain ⟨hfirst, hrest⟩ := List.pairwise_cons.mp h
    rw [insertEntry]
    by_cases hlt : key < k
    · rw [if_pos hlt]
      refine List.pairwise_cons.mpr ⟨?_, h⟩
      intro entry hentry
      rcases List.mem_cons.mp hentry with rfl | hentry
      · exact hlt
      · exact lt_trans hlt (hfirst entry hentry)
    · rw [if_neg hlt]
      by_cases heq : key = k
      · rw [if_pos heq, heq]
        exact List.pairwise_cons.mpr ⟨hfirst, hrest⟩
      · rw [if_neg heq]
        refine List.pairwise_cons.mpr ⟨?_, ih hrest⟩
        intro entry hentry
        rcases mem_insertEntry hentry with rfl | hold
        · exact lt_of_le_of_ne (not_lt.mp hlt) (Ne.symm heq)
        · exact hfirst entry hold

/-- The table of a list is ordered. -/
theorem ordered_ofList (bindings : List (String × α)) : (ofList bindings).Ordered := by
  induction bindings using List.reverseRecOn with
  | nil => exact List.Pairwise.nil
  | append_singleton bindings binding ih =>
    rw [ofList, List.foldl_append]
    exact pairwise_insertEntry ih binding.1 binding.2

theorem Ordered.nodup_keys (h : t.Ordered) : t.keys.Nodup := by
  unfold Table.keys
  rw [List.Nodup, List.pairwise_map]
  exact h.imp fun hlt => ne_of_lt hlt

/-- A look-up in an ordered table finds the entry of a name. -/
theorem Ordered.get?_eq_some_iff (h : t.Ordered) :
    t.get? name = some value ↔ (name, value) ∈ t.entries := by
  constructor
  · intro hget
    obtain ⟨before, after, hsplit, -⟩ := List.lookup_eq_some_iff.mp hget
    simp [hsplit]
  · intro hmem
    cases hget : t.get? name with
    | none =>
      have hne := List.lookup_eq_none_iff.mp hget _ hmem
      simp at hne
    | some found =>
      obtain ⟨before, after, hsplit, -⟩ := List.lookup_eq_some_iff.mp hget
      have hfound : (name, found) ∈ t.entries := by simp [hsplit]
      -- Two entries of one name would be in strictly increasing order.
      have hsame := List.inj_on_of_nodup_map h.nodup_keys hfound hmem rfl
      rw [(Prod.mk.inj hsame).2]

/-- Ordered tables that hold the same entries are equal. -/
theorem Ordered.ext (ht : t.Ordered) (hu : u.Ordered)
    (h : ∀ name value, (name, value) ∈ t.entries ↔ (name, value) ∈ u.entries) : t = u := by
  have hperm : t.entries.Perm u.entries :=
    (List.perm_ext_iff_of_nodup (ht.nodup_keys.of_map _) (hu.nodup_keys.of_map _)).mpr
      fun entry => h entry.1 entry.2
  have hentries : t.entries = u.entries :=
    hperm.eq_of_pairwise (fun a b _ _ hab hba => absurd hab (lt_asymm hba)) ht hu
  obtain ⟨entries⟩ := t
  exact congrArg Table.mk hentries

/-- Ordered tables that bind the same to every name are equal. -/
theorem Ordered.ext_get? (ht : t.Ordered) (hu : u.Ordered)
    (h : ∀ name, t.get? name = u.get? name) : t = u := by
  refine ht.ext hu fun name value => ?_
  rw [← ht.get?_eq_some_iff, ← hu.get?_eq_some_iff, h name]

theorem ordered_empty : (empty : Table α).Ordered :=
  List.Pairwise.nil

theorem Ordered.insert (h : t.Ordered) (key : String) (added : α) : (t.insert key added).Ordered :=
  pairwise_insertEntry h key added

theorem Ordered.erase (h : t.Ordered) (key : String) : (t.erase key).Ordered :=
  h.filter _

end Ordered

/-! ### The table of a list -/

section OfList

variable {bindings other : List (String × α)} {name : String} {value : α}

/-- The table of a list gives a name what the list does. -/
theorem get?_ofList_eq_some_iff :
    (ofList bindings).get? name = some value ↔ LastBinding bindings name value := by
  induction bindings using List.reverseRecOn with
  | nil => simp [not_lastBinding_nil, ofList, empty, get?]
  | append_singleton bindings binding ih =>
    rw [lastBinding_concat, ← ih, ofList, List.foldl_append]
    have hinsert := get?_insert (ofList bindings) binding.1 name binding.2
    show ((ofList bindings).insert binding.1 binding.2).get? name = some value ↔ _
    rw [hinsert]
    split <;> simp

theorem mem_entries_ofList_iff :
    (name, value) ∈ (ofList bindings).entries ↔ LastBinding bindings name value := by
  rw [← (ordered_ofList bindings).get?_eq_some_iff, get?_ofList_eq_some_iff]

/-- Two lists make the same table if and only if they give the same values. -/
theorem ofList_eq_iff :
    ofList bindings = ofList other ↔
      ∀ name value, LastBinding bindings name value ↔ LastBinding other name value := by
  constructor
  · intro h name value
    rw [← get?_ofList_eq_some_iff, h, get?_ofList_eq_some_iff]
  · intro h
    refine (ordered_ofList bindings).ext (ordered_ofList other) fun name value => ?_
    rw [mem_entries_ofList_iff, mem_entries_ofList_iff, h]

end OfList

end Table

end Phrasebook

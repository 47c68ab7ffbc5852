import Phrasebook.Proofs.Table.Bindings

/-!
# Each name once

A list of bindings that repeats names can be brought into a form that does not: each name stands
where it comes first, and has the value that is bound to it last. There is only one such list
(`Table.eq_lastOfEach`), so whoever goes through the bindings and sets each of them, in the place of
an earlier one of its name or at the end, arrives at it.

* `Table.lastOfEach`: the list in this form;
* `Table.map_fst_lastOfEach`, `Table.mem_lastOfEach_iff`: its names and its values;
* `Table.lastOfEach_of_nodup`: a list that repeats no name has this form already.
-/

namespace Phrasebook.Table

variable {α : Type}

/-- Each name of some bindings once, where it comes first, with the value that is bound to it last.
-/
def lastOfEach (bindings : List (String × α)) : List (String × α) :=
  (bindings.map Prod.fst).eraseDups.filterMap fun name =>
    (bindings.reverse.lookup name).map fun value => (name, value)

/-! ### First places -/

section EraseDups

variable {xs : List String} {x : String}

/-- What is added at the end stays if it is new. -/
theorem eraseDups_concat (xs : List String) (x : String) :
    (xs ++ [x]).eraseDups = if x ∈ xs then xs.eraseDups else xs.eraseDups ++ [x] := by
  rw [List.eraseDups_append]
  by_cases hx : x ∈ xs
  · simp [hx, List.removeAll]
  · simp [hx, List.removeAll, List.eraseDups_cons]

/-- What comes after a list adds those that are not in it. -/
theorem eraseDups_append_filter (xs ys : List String) :
    (xs ++ ys).eraseDups = xs.eraseDups ++ ys.eraseDups.filter (· ∉ xs.eraseDups) := by
  induction ys using List.reverseRecOn with
  | nil => simp
  | append_singleton ys y ih =>
    rw [← List.append_assoc, eraseDups_concat, eraseDups_concat, ih]
    by_cases hys : y ∈ ys
    · simp [hys]
    · by_cases hxs : y ∈ xs <;> simp [hys, hxs]

theorem nodup_eraseDups (xs : List String) : xs.eraseDups.Nodup := by
  induction xs using List.reverseRecOn with
  | nil => simp
  | append_singleton xs x ih =>
    rw [eraseDups_concat]
    split
    · exact ih
    · rename_i hnew
      rw [← List.mem_eraseDups] at hnew
      rw [← List.concat_eq_append]
      exact List.Nodup.concat hnew ih

theorem eraseDups_of_nodup (h : xs.Nodup) : xs.eraseDups = xs := by
  induction xs using List.reverseRecOn with
  | nil => simp
  | append_singleton xs x ih =>
    obtain ⟨hxs, -, hnew⟩ := List.nodup_append.mp h
    have hx : x ∉ xs := fun hmem => hnew x hmem x (List.mem_singleton_self x) rfl
    rw [eraseDups_concat, if_neg hx, ih hxs]

end EraseDups

/-! ### Names and values -/

variable {bindings entries other : List (String × α)} {name : String} {value : α}

/-- The last binding of a name is the first one from behind. -/
theorem lookup_reverse_eq_some_iff :
    bindings.reverse.lookup name = some value ↔ LastBinding bindings name value := by
  induction bindings using List.reverseRecOn with
  | nil => simp [not_lastBinding_nil]
  | append_singleton bindings binding ih =>
    obtain ⟨key, added⟩ := binding
    rw [List.reverse_concat, List.lookup_cons, lastBinding_concat, ← ih]
    by_cases hname : name = key
    · simp [hname]
    · simp [hname, beq_eq_false_iff_ne.mpr hname]

theorem mem_lastOfEach_iff :
    (name, value) ∈ lastOfEach bindings ↔ LastBinding bindings name value := by
  rw [lastOfEach, List.mem_filterMap]
  constructor
  · rintro ⟨n, -, hn⟩
    obtain ⟨v, hv, heq⟩ := Option.map_eq_some_iff.mp hn
    cases heq
    exact lookup_reverse_eq_some_iff.mp hv
  · intro hlast
    refine ⟨name, ?_, ?_⟩
    · exact List.mem_eraseDups.mpr (exists_lastBinding_iff.mp ⟨value, hlast⟩)
    · rw [lookup_reverse_eq_some_iff.mpr hlast]
      rfl

theorem map_fst_lastOfEach (bindings : List (String × α)) :
    (lastOfEach bindings).map Prod.fst = (bindings.map Prod.fst).eraseDups := by
  rw [lastOfEach, List.map_filterMap]
  -- Every name of the list has a last binding, so none is left out.
  have hbound : ∀ name ∈ (bindings.map Prod.fst).eraseDups,
      ((bindings.reverse.lookup name).map fun value => (name, value)).map Prod.fst = some name := by
    intro name hname
    obtain ⟨value, hlast⟩ := exists_lastBinding_iff.mpr (List.mem_eraseDups.mp hname)
    rw [lookup_reverse_eq_some_iff.mpr hlast]
    rfl
  rw [List.filterMap_congr hbound, List.filterMap_some]

/-- A list that repeats no name is known from its names and what it binds to them. -/
theorem eq_of_map_fst_eq (hnodup : (entries.map Prod.fst).Nodup)
    (hnames : entries.map Prod.fst = other.map Prod.fst)
    (h : ∀ entry ∈ other, entry ∈ entries) : entries = other := by
  have hlength : entries.length = other.length := by simpa using congrArg List.length hnames
  apply List.ext_getElem hlength
  intro i hi hi'
  have hname : entries[i].1 = other[i].1 := by
    have hget := List.getElem_of_eq hnames (i := i) (by simpa using hi)
    simpa using hget
  exact List.inj_on_of_nodup_map hnodup (List.getElem_mem hi) (h _ (List.getElem_mem hi')) hname

/-- Only one list has each name where it comes first and with its last value. -/
theorem eq_lastOfEach (hnames : entries.map Prod.fst = (bindings.map Prod.fst).eraseDups)
    (h : ∀ name value, LastBinding bindings name value → (name, value) ∈ entries) :
    entries = lastOfEach bindings := by
  apply eq_of_map_fst_eq
  · rw [hnames]
    exact nodup_eraseDups _
  · rw [hnames, map_fst_lastOfEach]
  · intro entry hentry
    exact h entry.1 entry.2 (mem_lastOfEach_iff.mp hentry)

/-- Where no name is repeated, the first and the last binding of each are the same. -/
theorem lastOfEach_of_nodup (h : (bindings.map Prod.fst).Nodup) :
    lastOfEach bindings = bindings := by
  symm
  apply eq_lastOfEach (eraseDups_of_nodup h).symm
  exact fun name value hlast => (lastBinding_iff_mem h).mp hlast

end Phrasebook.Table

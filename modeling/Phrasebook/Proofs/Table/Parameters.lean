import Mathlib.Order.Fin.Basic
import Phrasebook.Params
import Phrasebook.Proofs.Table.Bindings

/-!
# How parameters are made and looked up

Three things have to fit together. The sort is stable, so among the bindings of one name the last
one stays the last. The loop over the sorted bindings looks only at the binding that it kept last,
and this is enough since the names never decrease. What it keeps is in strictly increasing order of
the names, and so a search that halves the entries finds a name wherever it is.

The outcome is the table of the list of bindings (`Params.ofPairs_eq_ofList`), and the search is a
look-up in it (`Params.find?_eq_get?`).

* `Params.filter_sortByName`: the sort leaves the bindings of one name in their order;
* `Params.Keeps`: what the loop has kept of the bindings it has gone through;
* `Params.searchBetween_eq_some_iff`: a search finds the name if it is within the bounds;
* `Params.canonical`: the parameters made of a list of bindings.
-/

namespace Phrasebook.Params

open Table

/-! ### The sort -/

section Sorting

variable {bindings : List (String × Value)} {name : String} {value : Value}

theorem isLE_trans (a b c : String × Value) (hab : (compare a.1 b.1).isLE = true)
    (hbc : (compare b.1 c.1).isLE = true) : (compare a.1 c.1).isLE = true := by
  rw [Std.LawfulBCmp.isLE_iff_le] at hab hbc ⊢
  exact hab.trans hbc

theorem isLE_total (a b : String × Value) :
    ((compare a.1 b.1).isLE || (compare b.1 a.1).isLE) = true := by
  rw [Bool.or_eq_true, Std.LawfulBCmp.isLE_iff_le, Std.LawfulBCmp.isLE_iff_le]
  exact le_total a.1 b.1

theorem perm_sortByName (bindings : List (String × Value)) :
    (sortByName bindings).Perm bindings :=
  List.mergeSort_perm bindings _

/-- After the sort the names never decrease. -/
theorem pairwise_sortByName (bindings : List (String × Value)) :
    (sortByName bindings).Pairwise fun a b => a.1 ≤ b.1 := by
  refine (List.pairwise_mergeSort isLE_trans isLE_total bindings).imp ?_
  intro a b hab
  exact Std.LawfulBCmp.isLE_iff_le.mp hab

/-- The sort is stable: it leaves the bindings of one name in their order. -/
theorem filter_sortByName :
    ((sortByName bindings).filter fun binding => binding.1 = name) =
      bindings.filter fun binding => binding.1 = name := by
  -- Bindings of one name are in order already, so the sort keeps them as a sublist.
  have hequal : (bindings.filter fun binding => binding.1 = name).Pairwise
      fun a b => (compare a.1 b.1).isLE = true := by
    refine List.pairwise_of_forall_mem_list fun a ha b hb => ?_
    rw [List.mem_filter, decide_eq_true_eq] at ha hb
    rw [Std.LawfulBCmp.isLE_iff_le, ha.2, hb.2]
  have hsublist : (bindings.filter fun binding => binding.1 = name).Sublist
      (sortByName bindings) :=
    List.sublist_mergeSort isLE_trans isLE_total hequal List.filter_sublist
  have hfilter := hsublist.filter fun binding => binding.1 = name
  rw [List.filter_filter] at hfilter
  simp only [Bool.and_self] at hfilter
  -- No binding is lost or added, and a sublist of the same length is the whole list.
  have hperm := (perm_sortByName bindings).filter fun binding => binding.1 = name
  exact (hfilter.eq_of_length hperm.length_eq.symm).symm

/-- The sort does not change which binding of a name is the last. -/
theorem lastBinding_sortByName :
    LastBinding (sortByName bindings) name value ↔ LastBinding bindings name value := by
  rw [lastBinding_iff_getLast?, filter_sortByName, lastBinding_iff_getLast?]

end Sorting

/-! ### The loop over the sorted bindings -/

/-- What is kept of the bindings that were gone through: each name once, in strictly increasing
order, with its last value. -/
structure Keeps (taken kept : List (String × Value)) : Prop where
  /-- The names are in strictly increasing order. -/
  increasing : kept.Pairwise fun a b => a.1 < b.1
  /-- The names have their last values. -/
  mem_iff : ∀ name value, (name, value) ∈ kept ↔ LastBinding taken name value

section Keeping

variable {taken kept : List (String × Value)} {added : String × Value}

theorem keeps_nil : Keeps [] [] where
  increasing := List.Pairwise.nil
  mem_iff name value := by simp [not_lastBinding_nil]

/-- What was kept was gone through. -/
theorem Keeps.mem_of_mem (h : Keeps taken kept) {entry : String × Value} (hentry : entry ∈ kept) :
    entry ∈ taken := by
  obtain ⟨before, after, rfl, -⟩ := (h.mem_iff entry.1 entry.2).mp hentry
  simp

/-- A binding comes after those kept of smaller names; what was kept of its own name goes. -/
theorem Keeps.concat {before : List (String × Value)} (h : Keeps taken kept)
    (hbefore : before.Sublist kept) (hlt : ∀ entry ∈ before, entry.1 < added.1)
    (hrest : ∀ entry ∈ kept, entry ∈ before ∨ entry.1 = added.1) :
    Keeps (taken ++ [added]) (before ++ [added]) := by
  refine ⟨?_, fun name value => ?_⟩
  · rw [List.pairwise_append]
    refine ⟨h.increasing.sublist hbefore, List.pairwise_singleton _ _, ?_⟩
    intro entry hentry other hother
    rw [List.mem_singleton.mp hother]
    exact hlt entry hentry
  · rw [lastBinding_concat, ← h.mem_iff, List.mem_append, List.mem_singleton, Prod.ext_iff]
    split
    · rename_i hname
      -- Those before have smaller names, so only the added binding has this one.
      have hnew : (name, value) ∉ before := fun hmem => (hlt _ hmem).ne hname
      rw [or_iff_right hnew]
      simp [hname, eq_comm]
    · rename_i hname
      have hsame : (name, value) ∈ before ↔ (name, value) ∈ kept :=
        ⟨fun hmem => hbefore.subset hmem, fun hmem => (hrest _ hmem).resolve_right hname⟩
      simp [hname, hsame]

/-- One step of the loop, for a name that is not less than those before it. -/
theorem Keeps.keep (h : Keeps taken kept) (hle : ∀ binding ∈ taken, binding.1 ≤ added.1) :
    Keeps (taken ++ [added]) (keep kept added) := by
  rw [Params.keep]
  split
  · rename_i last hlast
    obtain ⟨before, rfl⟩ := List.getLast?_eq_some_iff.mp hlast
    have hlastle : last.1 ≤ added.1 := hle last (h.mem_of_mem (by simp))
    -- What was kept before the last one is smaller than it, so the last one alone has to be asked.
    have hbelow : ∀ entry ∈ before, entry.1 < last.1 := fun entry hentry =>
      (List.pairwise_append.mp h.increasing).2.2 entry hentry last (List.mem_singleton_self last)
    split
    · rename_i hname
      rw [List.dropLast_concat, hname]
      refine h.concat (List.sublist_append_left before [last]) ?_ ?_
      · intro entry hentry
        exact (hbelow entry hentry).trans_eq hname
      · intro entry hentry
        rcases List.mem_append.mp hentry with hearlier | hend
        · exact Or.inl hearlier
        · exact Or.inr (List.mem_singleton.mp hend ▸ hname)
    · rename_i hname
      have hlt : last.1 < added.1 := lt_of_le_of_ne hlastle hname
      refine h.concat (List.Sublist.refl _) ?_ fun entry hentry => Or.inl hentry
      intro entry hentry
      rcases List.mem_append.mp hentry with hearlier | hend
      · exact (hbelow entry hearlier).trans hlt
      · rw [List.mem_singleton.mp hend]
        exact hlt
  · rename_i hlast
    obtain rfl := List.getLast?_eq_none_iff.mp hlast
    exact h.concat (List.Sublist.refl _) (by simp) (by simp)

/-- The whole loop, over bindings whose names never decrease. -/
theorem keeps_foldl (h : taken.Pairwise fun a b => a.1 ≤ b.1) :
    Keeps taken (taken.foldl Params.keep []) := by
  induction taken using List.reverseRecOn with
  | nil => exact keeps_nil
  | append_singleton taken added ih =>
    -- The binding that is taken in last has a name that is not less than any before.
    obtain ⟨htaken, -, hle⟩ := List.pairwise_append.mp h
    rw [List.foldl_append]
    exact (ih htaken).keep fun binding hbinding =>
      hle binding hbinding added (List.mem_singleton_self added)

end Keeping

/-! ### The parameters made -/

/-- The parameters made of a list of bindings keep its names with their last values. -/
theorem keeps_ofPairs (bindings : List (String × Value)) :
    Keeps bindings (ofPairs bindings).entries := by
  have h := keeps_foldl (pairwise_sortByName bindings)
  refine ⟨h.increasing, fun name value => ?_⟩
  rw [← lastBinding_sortByName]
  exact h.mem_iff name value

theorem ordered_ofPairs (bindings : List (String × Value)) : (ofPairs bindings).Ordered :=
  (keeps_ofPairs bindings).increasing

/-- The sort and the loop make the table of the list. -/
theorem ofPairs_eq_ofList (bindings : List (String × Value)) :
    ofPairs bindings = ofList bindings := by
  refine (ordered_ofPairs bindings).ext (ordered_ofList bindings) fun name value => ?_
  rw [(keeps_ofPairs bindings).mem_iff, mem_entries_ofList_iff]

/-! ### The search -/

section Searching

variable {entries : List (String × Value)} {name : String} {low high : Nat}

/-- Later entries have greater names. -/
theorem strictMono_name (h : entries.Pairwise fun a b => a.1 < b.1) :
    StrictMono fun position : Fin entries.length => entries[position].1 :=
  fun i j hij => List.pairwise_iff_getElem.mp h i j i.isLt j.isLt hij

/-- A search finds the name if it stands within the bounds, and nothing else. -/
theorem searchBetween_eq_some_iff (h : entries.Pairwise fun a b => a.1 < b.1)
    {hhigh : high ≤ entries.length} {position : Fin entries.length} :
    searchBetween entries name low high hhigh = some position ↔
      low ≤ position ∧ position < high ∧ entries[position].1 = name := by
  have hmono := strictMono_name h
  fun_induction searchBetween entries name low high hhigh with
  | case1 low high hhigh hlow middle hcompare =>
    -- The name in the middle is the one searched for, and no other position has it.
    have hname : entries[middle].1 = name := compare_eq_iff_eq.mp hcompare
    constructor
    · intro hfound
      obtain rfl := Option.some.inj hfound
      exact ⟨by simp only [middle]; omega, by simp only [middle]; omega, hname⟩
    · rintro ⟨-, -, hposition⟩
      exact congrArg some (hmono.injective (hname.trans hposition.symm))
  | case2 low high hhigh hlow middle hcompare ih =>
    -- The name is greater than the one in the middle, so it stands further on.
    have hlt : entries[middle].1 < name := compare_lt_iff_lt.mp hcompare
    refine ih.trans ⟨?_, ?_⟩
    · rintro ⟨hlow', hposition⟩
      exact ⟨by simp only [middle] at hlow'; omega, hposition⟩
    · rintro ⟨-, hhigh', rfl⟩
      exact ⟨hmono.lt_iff_lt.mp hlt, hhigh', rfl⟩
  | case3 low high hhigh hlow middle hcompare ih =>
    -- The name is less than the one in the middle, so it stands before.
    have hlt : name < entries[middle].1 := compare_gt_iff_gt.mp hcompare
    refine ih.trans ⟨?_, ?_⟩
    · rintro ⟨hlow', hhigh', hposition⟩
      exact ⟨hlow', by simp only [middle] at hhigh'; omega, hposition⟩
    · rintro ⟨hlow', -, rfl⟩
      exact ⟨hlow', hmono.lt_iff_lt.mp hlt, rfl⟩
  | case4 low high hhigh hlow =>
    constructor
    · intro hfound
      cases hfound
    · rintro ⟨hlow', hhigh', -⟩
      exact absurd (hlow'.trans_lt hhigh') hlow

variable {params : Params} {value : Value}

/-- A search among the entries of parameters finds what is bound to the name. -/
theorem find?_eq_some_iff (h : params.Ordered) :
    find? params name = some value ↔ (name, value) ∈ params.entries := by
  rw [find?, Option.map_eq_some_iff]
  simp only [searchBetween_eq_some_iff h]
  constructor
  · rintro ⟨position, ⟨-, -, rfl⟩, rfl⟩
    exact List.getElem_mem position.isLt
  · intro hmem
    obtain ⟨position, hposition, hentry⟩ := List.getElem_of_mem hmem
    refine ⟨⟨position, hposition⟩, ⟨Nat.zero_le _, hposition, ?_⟩, ?_⟩
    · exact congrArg Prod.fst hentry
    · exact congrArg Prod.snd hentry

/-- The search is a look-up. -/
theorem find?_eq_get? (h : params.Ordered) (name : String) :
    find? params name = params.get? name := by
  refine Option.ext fun value => ?_
  rw [find?_eq_some_iff h, h.get?_eq_some_iff]

end Searching

/-! ### Parameters and the bindings they come from -/

section Canonical

variable {bindings other : List (String × Value)} {name : String} {value : Value}

/-- A look-up among the parameters made of a list gives a name what the list does. -/
theorem find?_ofPairs_eq_some_iff :
    (ofPairs bindings).find? name = some value ↔ LastBinding bindings name value := by
  rw [find?_eq_some_iff (ordered_ofPairs bindings), (keeps_ofPairs bindings).mem_iff]

/-- Two lists make the same parameters if and only if they give the same values. -/
theorem ofPairs_eq_iff :
    ofPairs bindings = ofPairs other ↔
      ∀ name value, LastBinding bindings name value ↔ LastBinding other name value := by
  rw [ofPairs_eq_ofList, ofPairs_eq_ofList, ofList_eq_iff]

end Canonical

/-- **Parameters are canonical.** The parameters made of a list of bindings have the names of the
list in strictly increasing order, each with the value bound to it last, and a look-up gives that
value or nothing. Two lists make the same parameters if and only if they give the same values, where
numbers of the two kinds differ and floating-point numbers are their bits. So bindings of different
names may change places, and a mapping may be gone through in any order. -/
theorem canonical (bindings : List (String × Value)) :
    (ofPairs bindings).entries.Pairwise (fun a b => a.1 < b.1) ∧
      (∀ name, name ∈ (ofPairs bindings).keys ↔ name ∈ bindings.map Prod.fst) ∧
      (∀ name value,
        (name, value) ∈ (ofPairs bindings).entries ↔ LastBinding bindings name value) ∧
      (∀ name value,
        (ofPairs bindings).find? name = some value ↔ LastBinding bindings name value) ∧
      (∀ name, (ofPairs bindings).find? name = none ↔ name ∉ bindings.map Prod.fst) ∧
      (∀ other, ofPairs bindings = ofPairs other ↔
        ∀ name value, LastBinding bindings name value ↔ LastBinding other name value) ∧
      (∀ name x y,
        ofPairs [(name, Value.float x)] = ofPairs [(name, Value.float y)] ↔ x.bits = y.bits) ∧
      (∀ name n x, ofPairs [(name, Value.integer n)] ≠ ofPairs [(name, Value.float x)]) ∧
      (∀ other : List (String × Value),
        (∀ name, (bindings.filter fun binding => binding.1 = name) =
          other.filter fun binding => binding.1 = name) → ofPairs bindings = ofPairs other) ∧
      (∀ order, Lists order bindings → ofPairs order = ofPairs bindings) := by
  refine ⟨ordered_ofPairs bindings, ?_, (keeps_ofPairs bindings).mem_iff,
    fun _ _ => find?_ofPairs_eq_some_iff, ?_, fun _ => ofPairs_eq_iff, ?_, ?_, ?_, ?_⟩
  · intro name
    rw [← exists_lastBinding_iff]
    simp only [← (keeps_ofPairs bindings).mem_iff]
    simp [keys]
  · intro name
    rw [← exists_lastBinding_iff, Option.eq_none_iff_forall_ne_some]
    simp [find?_ofPairs_eq_some_iff]
  · rintro name ⟨x⟩ ⟨y⟩
    simp [ofPairs, sortByName, Params.keep]
  · intro name n x
    simp [ofPairs, sortByName, Params.keep]
  · intro other hfilter
    refine ofPairs_eq_iff.mpr fun name value => ?_
    rw [lastBinding_iff_getLast?, lastBinding_iff_getLast?, hfilter name]
  · intro order horder
    refine ofPairs_eq_iff.mpr fun name value => ?_
    rw [lastBinding_iff_mem horder.nodup, horder.mem_iff]

/-- Bindings of which one is overwritten, by a value that is not a number. -/
def overwriting : List (String × Value) :=
  [("b", .integer 1), ("a", .boolean true), ("b", .float ⟨0x7FF8000000000000⟩)]

/-- The overwritten binding may come at any place before the one that counts, or not at all. -/
theorem canonical_overwriting :
    ofPairs overwriting = ofPairs
        [("a", .boolean true), ("b", .integer 1), ("b", .float ⟨0x7FF8000000000000⟩)] ∧
      ofPairs [("b", .float ⟨0x7FF8000000000000⟩), ("a", .boolean true)] = ofPairs overwriting ∧
      (ofPairs overwriting).find? "b" = some (.float ⟨0x7FF8000000000000⟩) := by
  obtain ⟨-, -, -, hfind, -, -, -, -, hreordered, hlists⟩ := canonical overwriting
  refine ⟨hreordered _ fun name => ?_, hlists _ ⟨by decide, fun name value => ?_⟩, ?_⟩
  · by_cases ha : "a" = name
    · simp [overwriting, ← ha]
    · simp [overwriting, List.filter_cons, ha]
  · rw [lastBinding_iff_getLast?]
    by_cases ha : "a" = name
    · simp [overwriting, ← ha, eq_comm]
    · by_cases hb : "b" = name
      · simp [overwriting, ← hb, eq_comm]
      · simp [overwriting, ha, hb, Ne.symm ha, Ne.symm hb]
  · exact (hfind _ _).mpr ⟨[("b", .integer 1), ("a", .boolean true)], [], rfl, by simp⟩

end Phrasebook.Params

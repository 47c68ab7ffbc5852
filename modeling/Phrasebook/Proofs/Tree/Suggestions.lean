import Mathlib.Data.String.Basic
import Phrasebook.Proofs.Text.Edits
import Phrasebook.Tree.Suggest

/-!
# The best suggestions

Of the names that are there, those near enough to the name asked for are ranked by the number of
slips between them and then by their own order, and the first three are suggested. The two criteria
together tell any two names apart, so that a list of names has only one ranking
(`Ranking.unique`), however the names were ordered, and also if some of them are repeated.

* `slips`: the least number of edits between the target and a name;
* `Near`, `Precedes`: which names may be suggested, and which of two comes first;
* `Ranking`: the names of a list that may be suggested, best first;
* `suggest_best`: the suggestions are the first three of the ranking.
-/

namespace Phrasebook.Tree

open Text

/-- The number of slips that make one name out of another. -/
def slips (target name : String) : Nat :=
  editDistance target.toList name.toList

/-- Whether a name is another one than the target, but near enough to be meant. -/
def Near (target name : String) : Prop :=
  1 ≤ slips target name ∧ slips target name ≤ slipLimit target

instance (target name : String) : Decidable (Near target name) :=
  inferInstanceAs (Decidable (_ ∧ _))

/-- Whether one name comes before another: it is nearer to the target, or it is as near and comes
first in the order of texts. -/
def Precedes (target a b : String) : Prop :=
  slips target a < slips target b ∨ slips target a = slips target b ∧ a < b

/-- A list has the near ones of the available names, each as often as it is available, and none
comes before an earlier one. -/
structure Ranking (target : String) (available ranked : List String) : Prop where
  /-- The near names are ranked, and no others. -/
  perm : ranked.Perm (available.filter fun name => Near target name)
  /-- No name is ranked behind one that it precedes. -/
  ordered : ranked.Pairwise fun a b => ¬ Precedes target b a

variable {target a b c : String} {available ranked other : List String}

/-! ### The order of the names -/

theorem not_precedes_iff :
    ¬ Precedes target b a ↔
      slips target a < slips target b ∨ slips target a = slips target b ∧ a ≤ b := by
  unfold Precedes
  rw [not_or, not_and, not_lt, not_lt]
  constructor
  · rintro ⟨hle, horder⟩
    rcases Nat.lt_or_eq_of_le hle with hlt | heq
    · exact Or.inl hlt
    · exact Or.inr ⟨heq, horder heq.symm⟩
  · rintro (hlt | ⟨heq, horder⟩)
    · exact ⟨hlt.le, fun h => absurd h hlt.ne'⟩
    · exact ⟨heq.le, fun _ => horder⟩

/-- Names that neither precedes the other are the same. -/
theorem eq_of_not_precedes (hab : ¬ Precedes target b a) (hba : ¬ Precedes target a b) : a = b := by
  rcases not_precedes_iff.mp hab with hlt | ⟨heq, hle⟩
  · exact absurd (Or.inl hlt) hba
  · rcases not_precedes_iff.mp hba with hlt | ⟨-, hge⟩
    · omega
    · exact le_antisymm hle hge

/-- The candidates are compared with their distances at hand. -/
theorem ranksBefore_iff (target a b : String) :
    ranksBefore (slips target a, a) (slips target b, b) = true ↔ ¬ Precedes target b a := by
  rw [not_precedes_iff]
  simp [ranksBefore]

theorem ranksBefore_trans (x y z : Nat × String) (hxy : ranksBefore x y = true)
    (hyz : ranksBefore y z = true) : ranksBefore x z = true := by
  simp only [ranksBefore, Bool.or_eq_true, Bool.and_eq_true, decide_eq_true_eq, beq_iff_eq] at *
  rcases hxy with hlt | ⟨heq, hle⟩
  · left
    omega
  · rcases hyz with hlt | ⟨heq', hle'⟩
    · left
      omega
    · exact Or.inr ⟨heq.trans heq', hle.trans hle'⟩

theorem ranksBefore_total (x y : Nat × String) : (ranksBefore x y || ranksBefore y x) = true := by
  simp only [ranksBefore, Bool.or_eq_true, Bool.and_eq_true, decide_eq_true_eq, beq_iff_eq]
  rcases Nat.lt_trichotomy x.1 y.1 with hlt | heq | hlt
  · exact Or.inl (Or.inl hlt)
  · rcases le_total x.2 y.2 with hle | hle
    · exact Or.inl (Or.inr ⟨heq, hle⟩)
    · exact Or.inr (Or.inr ⟨heq.symm, hle⟩)
  · exact Or.inr (Or.inl hlt)

/-! ### Rankings -/

/-- There is only one ranking. -/
theorem Ranking.unique (h : Ranking target available ranked) (h' : Ranking target available other) :
    ranked = other :=
  (h.perm.trans h'.perm.symm).eq_of_pairwise
    (fun _ _ _ _ hab hba => eq_of_not_precedes hab hba) h.ordered h'.ordered

/-- The order of the available names does not matter to a ranking. -/
theorem Ranking.of_perm (h : Ranking target available ranked) (hperm : available.Perm other) :
    Ranking target other ranked :=
  ⟨h.perm.trans (hperm.filter _), h.ordered⟩

theorem nearby_eq (target : String) (available : List String) :
    nearby target available =
      (available.filter fun name => Near target name).map fun name => (slips target name, name) := by
  rw [nearby, List.filter_map]
  congr 1
  apply List.filter_congr
  intro name _
  simp [Near, slips, Nat.succ_le_iff]

/-- The candidates, sorted with their distances, are a ranking. -/
theorem ranking_sorted (target : String) (available : List String) :
    Ranking target available (((nearby target available).mergeSort ranksBefore).map Prod.snd) := by
  refine ⟨?_, ?_⟩
  · have hperm := (List.mergeSort_perm (nearby target available) ranksBefore).map Prod.snd
    rw [nearby_eq, List.map_map] at hperm
    simpa [nearby_eq, Function.comp_def] using hperm
  · rw [List.pairwise_map]
    have hsorted := List.pairwise_mergeSort ranksBefore_trans ranksBefore_total
      (nearby target available)
    refine hsorted.imp_of_mem ?_
    -- Every candidate carries its own distance.
    intro x y hx hy hle
    rw [List.mem_mergeSort, nearby_eq] at hx hy
    obtain ⟨a, -, rfl⟩ := List.mem_map.mp hx
    obtain ⟨b, -, rfl⟩ := List.mem_map.mp hy
    exact (ranksBefore_iff target a b).mp hle

/-- The suggestions are the first three names of the ranking. -/
theorem Ranking.suggest_eq (h : Ranking target available ranked) :
    suggest target available = ranked.take 3 := by
  rw [suggest, List.map_take, (ranking_sorted target available).unique h]

/-- What is suggested is available and near. -/
theorem mem_of_mem_suggest {name : String} (h : name ∈ suggest target available) :
    name ∈ available ∧ Near target name := by
  have hranking := ranking_sorted target available
  rw [hranking.suggest_eq] at h
  have hmem := hranking.perm.mem_iff.mp (List.mem_of_mem_take h)
  simpa using List.mem_filter.mp hmem

/-- **The best suggestions, whatever the order.** The slips between two names are the least number
of insertions, removals and replacements of characters. The names within the limit, other than the
target itself, have exactly one ranking by slips and then by their order, and its first three names
are suggested. So the order in which the names are available does not matter, the target is never
suggested, and no near name that is left out precedes one that is suggested, also where a name is
available several times and only some of these are suggested. -/
theorem suggest_best (target : String) (available : List String) :
    (∀ name, IsLeast {n | Edits n target.toList name.toList} (slips target name)) ∧
      (∃ ranked, Ranking target available ranked) ∧
      (∀ ranked, Ranking target available ranked → suggest target available = ranked.take 3) ∧
      (∀ other, other.Perm available → suggest target other = suggest target available) ∧
      target ∉ suggest target available ∧
      ∀ omitted,
        (suggest target available ++ omitted).Perm
            (available.filter fun name => Near target name) →
          ∀ name ∈ omitted, ∀ kept ∈ suggest target available, ¬ Precedes target name kept := by
  have hranking := ranking_sorted target available
  refine ⟨fun name => isLeast_editDistance _ _, ⟨_, hranking⟩, fun ranked h => h.suggest_eq,
    ?_, ?_, ?_⟩
  · intro other hperm
    rw [hranking.suggest_eq, (hranking.of_perm hperm.symm).suggest_eq]
  · intro hmem
    have hnear := (mem_of_mem_suggest hmem).2.1
    rw [slips, editDistance_eq_zero_iff.mpr rfl] at hnear
    omega
  · intro omitted hperm name hname kept hkept
    rw [hranking.suggest_eq] at hperm hkept
    generalize ((nearby target available).mergeSort ranksBefore).map Prod.snd = ranked at *
    -- What is left out is the rest of the ranking, in some order.
    have hrest : (ranked.drop 3).Perm omitted := by
      rw [← List.perm_append_left_iff (ranked.take 3), List.take_append_drop]
      exact hranking.perm.trans hperm.symm
    have hordered := hranking.ordered
    rw [← List.take_append_drop 3 ranked, List.pairwise_append] at hordered
    exact hordered.2.2 kept hkept name (hrest.mem_iff.mpr hname)

/-- Of six near names three are suggested, two of which are the same; the target is not. -/
example : suggest "items" ["itens", "item", "items", "its", "ite", "item", "itmes"] =
    ["item", "item", "itens"] := by
  cbv

end Phrasebook.Tree

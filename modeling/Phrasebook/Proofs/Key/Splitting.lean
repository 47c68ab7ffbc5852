import Mathlib.Logic.ExistsUnique
import Phrasebook.Proofs.Key.Joining
import Phrasebook.Tree.Path

/-!
# Texts that are keys, and texts that are not

A text is a key if it joins segments, and then it is split into them. Any other text but the empty
one has an empty part between its dots, and the first one is reported by its position.

* `Key.split_eq_error_iff`: which fault a text has that is no key;
* `Key.split_inverts_join`: splitting and joining are inverse to each other.
-/

namespace Phrasebook.Key

variable {key : String} {position : Nat} {fault : Fault}

/-- Whether the first empty part of a text between its dots is at a position: the parts before it
are segments, and those after it are any texts without dots. -/
def FirstEmpty (key : String) (position : Nat) : Prop :=
  ∃ before after, before.length = position ∧ (∀ segment ∈ before, IsSegment segment) ∧
    (∀ part ∈ after, '.' ∉ part.toList) ∧ join (before ++ "" :: after) = key

/-- The parts around an empty one are found again. -/
theorem parts_join_gap {before after : List String}
    (hbefore : ∀ segment ∈ before, IsSegment segment)
    (hafter : ∀ part ∈ after, '.' ∉ part.toList) :
    parts (join (before ++ "" :: after)) = before ++ "" :: after := by
  refine parts_join (by simp) ?_
  intro part hpart
  rcases List.mem_append.mp hpart with hpart | hpart
  · exact (hbefore part hpart).2
  rcases List.mem_cons.mp hpart with rfl | hpart
  · simp
  · exact hafter part hpart

/-- A search of the parts stops at the first empty one. -/
theorem findIdx?_parts_eq_some_iff :
    (parts key).findIdx? String.isEmpty = some position ↔ FirstEmpty key position := by
  constructor
  · intro h
    obtain ⟨hlt, hempty, hfirst⟩ := List.findIdx?_eq_some_iff_getElem.mp h
    have hsplit : (parts key).take position ++ "" :: (parts key).drop (position + 1) =
        parts key := by
      rw [← String.isEmpty_iff.mp hempty, List.getElem_cons_drop, List.take_append_drop]
    refine ⟨_, _, List.length_take_of_le (Nat.le_of_lt hlt), ?_, ?_, by rw [hsplit, join_parts]⟩
    · -- The parts before it are not empty, since the search went past them.
      intro segment hsegment
      obtain ⟨earlier, hearlier, rfl⟩ := List.mem_take_iff_getElem.mp hsegment
      obtain ⟨hbefore, hin⟩ := Nat.lt_min.mp hearlier
      refine ⟨fun hnone => hfirst earlier hbefore ?_, not_mem_of_mem_parts (List.getElem_mem hin)⟩
      exact String.isEmpty_iff.mpr hnone
    · exact fun part hpart => not_mem_of_mem_parts (List.mem_of_mem_drop hpart)
  · rintro ⟨before, after, rfl, hbefore, hafter, rfl⟩
    have hnone : before.findIdx? String.isEmpty = none := by
      refine List.findIdx?_eq_none_iff.mpr ?_
      intro segment hsegment
      simpa using (hbefore segment hsegment).1
    rw [parts_join_gap hbefore hafter, List.findIdx?_append, hnone, List.findIdx?_cons]
    simp

/-- The empty text is reported as such, and another text that is no key by the position of its first
empty part. -/
theorem split_eq_error_iff :
    split key = .error fault ↔
      key = "" ∧ fault = .empty ∨
        key ≠ "" ∧ ∃ position, fault = .emptySegment position ∧ FirstEmpty key position := by
  rw [split]
  cases hempty : key.isEmpty with
  | true => simp [String.isEmpty_iff.mp hempty, eq_comm]
  | false =>
    have hne : key ≠ "" := by simpa using hempty
    simp only [← findIdx?_parts_eq_some_iff]
    cases hsearch : (parts key).findIdx? String.isEmpty with
    | none => simp [hne]
    | some position => simp [hne, eq_comm]

/-- A text that is no key is reported when it is looked up in a tree. -/
theorem find_eq_error_iff_split {root : Branch} {locale : String} :
    Tree.find root key locale = .error (.invalidKey key fault) ↔ split key = .error fault := by
  rw [Tree.find]
  cases split key with
  | error other => simp
  | ok segments => cases hwalk : Tree.walk [] root segments <;> simp [hwalk]

/-- **Splitting inverts joining.** A text is split into segments exactly if it joins them, and the
lists of segments, at least one of them and none empty or with a dot, are each split from one text
only. Any other text is reported as no key, in whatever tree it is looked up: the empty one as
empty, another one by the position of the first empty part between its dots. -/
theorem split_inverts_join :
    (∀ key segments, split key = .ok segments ↔
      segments ≠ [] ∧ (∀ segment ∈ segments, IsSegment segment) ∧ join segments = key) ∧
    (∀ segments, (∃! key, split key = .ok segments) ↔
      segments ≠ [] ∧ ∀ segment ∈ segments, IsSegment segment) ∧
    (∀ key, (∃ fault, split key = .error fault) ↔
      ∀ segments, segments ≠ [] → (∀ segment ∈ segments, IsSegment segment) →
        join segments ≠ key) ∧
    (∀ key fault root locale,
      Tree.find root key locale = .error (.invalidKey key fault) ↔ split key = .error fault) ∧
    (∀ fault, split "" = .error fault ↔ fault = .empty) ∧
    ∀ key fault, key ≠ "" → (split key = .error fault ↔
      ∃ position, FirstEmpty key position ∧ fault = .emptySegment position ∧
        fault.message = "segment " ++ toString position ++ " is empty") := by
  refine ⟨fun _ _ => split_eq_ok_iff, ?_, ?_, fun _ _ _ _ => find_eq_error_iff_split, ?_, ?_⟩
  · intro segments
    constructor
    · rintro ⟨key, hsplit, -⟩
      obtain ⟨hne, hsegments, -⟩ := split_eq_ok_iff.mp hsplit
      exact ⟨hne, hsegments⟩
    · rintro ⟨hne, hsegments⟩
      refine ⟨join segments, split_eq_ok_iff.mpr ⟨hne, hsegments, rfl⟩, ?_⟩
      intro key hsplit
      exact (split_eq_ok_iff.mp hsplit).2.2.symm
  · intro key
    constructor
    · rintro ⟨fault, hfault⟩ segments hne hsegments hjoin
      rw [split_eq_ok_iff.mpr ⟨hne, hsegments, hjoin⟩] at hfault
      cases hfault
    · intro hno
      cases hsplit : split key with
      | error fault => exact ⟨fault, rfl⟩
      | ok segments =>
        obtain ⟨hne, hsegments, hjoin⟩ := split_eq_ok_iff.mp hsplit
        exact absurd hjoin (hno segments hne hsegments)
  · intro fault
    simp [split_eq_error_iff]
  · intro key fault hne
    rw [split_eq_error_iff]
    constructor
    · rintro (⟨hempty, -⟩ | ⟨-, position, rfl, hfirst⟩)
      · exact absurd hempty hne
      · exact ⟨position, hfirst, rfl, rfl⟩
    · rintro ⟨position, hfirst, rfl, -⟩
      exact Or.inr ⟨hne, position, rfl, hfirst⟩

/-- Dots at the start, at the end and next to each other, and a key of two words. -/
theorem split_inverts_join_dots :
    split "." = .error (.emptySegment 0) ∧ split "a." = .error (.emptySegment 1) ∧
      split "a..b" = .error (.emptySegment 1) ∧ split "größe.日本" = .ok ["größe", "日本"] := by
  obtain ⟨hok, -, -, -, -, herror⟩ := split_inverts_join
  have ha : ∀ segment ∈ ["a"], IsSegment segment := by simp [IsSegment]
  refine ⟨?_, ?_, ?_, ?_⟩
  · exact (herror "." _ (by decide)).mpr ⟨0, ⟨[], [""], rfl, by simp, by simp, by decide⟩, rfl, rfl⟩
  · exact (herror "a." _ (by decide)).mpr ⟨1, ⟨["a"], [], rfl, ha, by simp, by decide⟩, rfl, rfl⟩
  · exact (herror "a..b" _ (by decide)).mpr
      ⟨1, ⟨["a"], ["b"], rfl, ha, by simp, by decide⟩, rfl, rfl⟩
  · exact (hok _ _).mpr ⟨by simp, by simp [IsSegment], by decide⟩

end Phrasebook.Key

import Phrasebook.Key

/-!
# Splitting and joining keys

Splitting at dots and joining with dots undo each other on segments without dots, so a key and its
segments say the same.

* `splitAt_intercalate`: parts without separators are found again between separators;
* `Key.split_eq_ok_iff`: the segments of a key are the non-empty, dot-free texts that it joins.
-/

namespace Phrasebook

namespace Text

variable {sep : Char}

/-- No part contains the separator. -/
theorem not_mem_of_mem_splitAt {cs part : List Char} (h : part ∈ splitAt sep cs) :
    sep ∉ part := by
  induction cs generalizing part with
  | nil =>
    rw [List.mem_singleton.mp h]
    simp
  | cons c cs ih =>
    rw [splitAt] at h
    -- A separator begins a new part; any other character joins the part that follows it.
    split at h
    · rcases List.mem_cons.mp h with rfl | h
      · simp
      · exact ih h
    · rename_i hc
      obtain ⟨first, more, hparts⟩ := List.exists_cons_of_ne_nil (splitAt_ne_nil sep cs)
      rw [hparts] at h ih
      rcases List.mem_cons.mp h with rfl | h
      · simp [Ne.symm hc, ih List.mem_cons_self]
      · exact ih (List.mem_cons_of_mem first h)

/-- A text without separators is its only part. -/
theorem splitAt_of_not_mem {part : List Char} (h : sep ∉ part) :
    splitAt sep part = [part] := by
  induction part with
  | nil => rfl
  | cons c part ih =>
    obtain ⟨hc, hpart⟩ := List.ne_and_not_mem_of_not_mem_cons h
    rw [splitAt, if_neg hc.symm, ih hpart]

/-- A part ends at the first separator. -/
theorem splitAt_append {part : List Char} (h : sep ∉ part) (cs : List Char) :
    splitAt sep (part ++ sep :: cs) = part :: splitAt sep cs := by
  induction part with
  | nil => simp [splitAt]
  | cons c part ih =>
    obtain ⟨hc, hpart⟩ := List.ne_and_not_mem_of_not_mem_cons h
    rw [List.cons_append, splitAt, if_neg hc.symm, ih hpart]

/-- Parts without separators are found again between separators. -/
theorem splitAt_intercalate {parts : List (List Char)} (hne : parts ≠ [])
    (hparts : ∀ part ∈ parts, sep ∉ part) :
    splitAt sep ([sep].intercalate parts) = parts := by
  induction parts with
  | nil => exact absurd rfl hne
  | cons part parts ih =>
    have hpart := hparts part List.mem_cons_self
    cases parts with
    | nil => simpa [List.intercalate] using splitAt_of_not_mem hpart
    | cons next parts =>
      have hmore := ih (by simp) fun p hp => hparts p (List.mem_cons_of_mem part hp)
      have hjoin : [sep].intercalate (part :: next :: parts) =
          part ++ sep :: [sep].intercalate (next :: parts) := by
        simp [List.intercalate]
      rw [hjoin, splitAt_append hpart, hmore]

end Text

namespace Key

open Text

/-- Whether a text can be a segment of a key: it is not empty and has no dot. -/
def IsSegment (segment : String) : Prop :=
  segment ≠ "" ∧ '.' ∉ segment.toList

/-- The characters of a key are those of its segments with dots between them. -/
theorem toList_join (segments : List String) :
    (join segments).toList = ['.'].intercalate (segments.map String.toList) := by
  rw [join, String.toList_intercalate]
  rfl

/-- The parts of a key join to the key. -/
theorem join_parts (key : String) :
    join (parts key) = key := by
  rw [← String.toList_inj, toList_join, parts, List.map_map]
  have hlist : String.toList ∘ String.ofList = id := by
    funext cs
    simp
  rw [hlist, List.map_id, intercalate_splitAt]

/-- Segments are the parts of the key that they join to. -/
theorem parts_join {segments : List String} (hne : segments ≠ [])
    (hsegments : ∀ segment ∈ segments, '.' ∉ segment.toList) :
    parts (join segments) = segments := by
  rw [parts, toList_join, splitAt_intercalate (by simpa using hne), List.map_map]
  · have hlist : String.ofList ∘ String.toList = id := by
      funext s
      simp
    rw [hlist, List.map_id]
  · intro part hpart
    obtain ⟨segment, hsegment, rfl⟩ := List.mem_map.mp hpart
    exact hsegments segment hsegment

/-- The parts of a key have no dots. -/
theorem not_mem_of_mem_parts {key part : String} (h : part ∈ parts key) : '.' ∉ part.toList := by
  obtain ⟨cs, hcs, rfl⟩ := List.mem_map.mp h
  simpa using not_mem_of_mem_splitAt hcs

/-- There is always at least one part. -/
theorem parts_ne_nil (key : String) : parts key ≠ [] := by
  simpa [parts] using splitAt_ne_nil '.' key.toList

/-- A key is split into the segments that join to it, unless one of its parts is empty. -/
theorem split_eq_ok_iff {key : String} {segments : List String} :
    split key = .ok segments ↔
      segments ≠ [] ∧ (∀ segment ∈ segments, IsSegment segment) ∧ join segments = key := by
  constructor
  · intro h
    rw [split] at h
    split at h
    · cases h
    split at h
    · cases h
    · rename_i hempty
      cases h
      refine ⟨parts_ne_nil key, ?_, join_parts key⟩
      intro segment hsegment
      refine ⟨?_, not_mem_of_mem_parts hsegment⟩
      have hne := List.findIdx?_eq_none_iff.mp hempty segment hsegment
      simpa using hne
  · rintro ⟨hne, hsegments, rfl⟩
    have hparts := parts_join hne fun segment hsegment => (hsegments segment hsegment).2
    have hkey : (join segments).isEmpty = false := by
      cases hjoin : (join segments).isEmpty with
      | false => rfl
      | true =>
        -- The empty text has one part, which is empty and so no segment.
        rw [String.isEmpty_iff.mp hjoin] at hparts
        have hfirst := hsegments "" (by rw [← hparts]; simp [parts, splitAt])
        exact absurd rfl hfirst.1
    have hempty : segments.findIdx? String.isEmpty = none := by
      refine List.findIdx?_eq_none_iff.mpr ?_
      intro segment hsegment
      simpa using (hsegments segment hsegment).1
    rw [split, hkey, hparts, hempty]
    rfl

/-- A key is split into its parts, unless one of them is empty. -/
theorem split_eq_ok_iff_parts {key : String} {segments : List String} :
    split key = .ok segments ↔ "" ∉ parts key ∧ segments = parts key := by
  rw [split_eq_ok_iff]
  constructor
  · rintro ⟨hne, hsegments, rfl⟩
    rw [parts_join hne fun segment hsegment => (hsegments segment hsegment).2]
    exact ⟨fun hmem => (hsegments "" hmem).1 rfl, rfl⟩
  · rintro ⟨hempty, rfl⟩
    refine ⟨parts_ne_nil key, ?_, join_parts key⟩
    intro segment hsegment
    exact ⟨fun heq => hempty (heq ▸ hsegment), not_mem_of_mem_parts hsegment⟩

end Key

end Phrasebook

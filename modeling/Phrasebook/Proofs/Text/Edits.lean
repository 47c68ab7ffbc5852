import Mathlib.Order.Bounds.Defs
import Mathlib.Order.MinMax
import Phrasebook.Text.Distance

/-!
# Edits of texts

An edit inserts, removes or replaces one character. The distance that is computed row by row is the
least number of edits that turn one text into the other (`isLeast_editDistance`), among all
sequences of edits, also those that go back on themselves.

`leastEdits` is the recursion on the first characters of both texts. That no sequence of edits is
shorter follows from one edit changing it by one at most (`leastEdits_le_of_edit`). The rows are
about ever longer beginnings of the two texts, so the recursion is met there on reversed texts
(`editDistance_eq`); edits read the same in both directions.

* `Edit`, `Edits`: one edit of a text, and so many of them in a row;
* `isLeast_leastEdits`: the recursion gives the least number of edits;
* `editDistance_eq_zero_iff`: only a text itself is at distance zero.
-/

namespace Phrasebook.Text

/-- One character is inserted, removed or replaced. -/
inductive Edit : List Char → List Char → Prop where
  | insert (before after : List Char) (c : Char) : Edit (before ++ after) (before ++ c :: after)
  | remove (before after : List Char) (c : Char) : Edit (before ++ c :: after) (before ++ after)
  | replace (before after : List Char) (c d : Char) :
      Edit (before ++ c :: after) (before ++ d :: after)

/-- So many edits, one after the other, turn one text into another. -/
inductive Edits : Nat → List Char → List Char → Prop where
  | refl (s : List Char) : Edits 0 s s
  | step {n : Nat} {s t u : List Char} (first : Edit s t) (more : Edits n t u) : Edits (n + 1) s u

/-- The least number of edits, by recursion on the first characters: one of them is removed, or
inserted, or becomes the other. -/
def leastEdits : List Char → List Char → Nat
  | [], t => t.length
  | _ :: s, [] => s.length + 1
  | c :: s, d :: t =>
    min (min (leastEdits s (d :: t) + 1) (leastEdits (c :: s) t + 1))
      (if c = d then leastEdits s t else leastEdits s t + 1)
termination_by s t => s.length + t.length

variable {s t u : List Char} {n : Nat}

/-! ### The recursion -/

@[simp]
theorem leastEdits_nil_left (t : List Char) : leastEdits [] t = t.length := by
  rw [leastEdits]

@[simp]
theorem leastEdits_nil_right (s : List Char) : leastEdits s [] = s.length := by
  cases s <;> simp [leastEdits]

theorem leastEdits_cons_cons (c d : Char) (s t : List Char) :
    leastEdits (c :: s) (d :: t) =
      min (min (leastEdits s (d :: t) + 1) (leastEdits (c :: s) t + 1))
        (if c = d then leastEdits s t else leastEdits s t + 1) := by
  rw [leastEdits]

@[simp]
theorem leastEdits_self (s : List Char) : leastEdits s s = 0 := by
  induction s with
  | nil => simp
  | cons c s ih => simp [leastEdits_cons_cons, ih]

/-! ### Edits in a row -/

/-- An edit of the end of a text is one of the text. -/
theorem Edit.cons (c : Char) (h : Edit s t) : Edit (c :: s) (c :: t) := by
  cases h with
  | insert before after d => exact .insert (c :: before) after d
  | remove before after d => exact .remove (c :: before) after d
  | replace before after d e => exact .replace (c :: before) after d e

theorem Edits.cons (c : Char) (h : Edits n s t) : Edits n (c :: s) (c :: t) := by
  induction h with
  | refl s => exact .refl _
  | step first _ ih => exact .step (first.cons c) ih

/-- An edit of a text reads as one of the reversed text. -/
theorem Edit.reverse (h : Edit s t) : Edit s.reverse t.reverse := by
  cases h with
  | insert before after c => simpa using Edit.insert after.reverse before.reverse c
  | remove before after c => simpa using Edit.remove after.reverse before.reverse c
  | replace before after c d => simpa using Edit.replace after.reverse before.reverse c d

theorem Edits.reverse (h : Edits n s t) : Edits n s.reverse t.reverse := by
  induction h with
  | refl s => exact .refl _
  | step first _ ih => exact .step first.reverse ih

theorem edits_reverse_iff : Edits n s.reverse t.reverse ↔ Edits n s t :=
  ⟨fun h => by simpa using h.reverse, Edits.reverse⟩

/-- As many edits as the recursion counts are enough. -/
theorem edits_leastEdits (s t : List Char) : Edits (leastEdits s t) s t := by
  induction s generalizing t with
  | nil =>
    rw [leastEdits_nil_left]
    -- Every character is inserted, the last one first.
    induction t with
    | nil => exact .refl []
    | cons d t ih => exact .step (.insert [] [] d) (ih.cons d)
  | cons c s ihs =>
    induction t with
    | nil =>
      have hrest := ihs []
      rw [leastEdits_nil_right] at hrest ⊢
      exact .step (.remove [] s c) hrest
    | cons d t iht =>
      have hremove : Edits (leastEdits s (d :: t) + 1) (c :: s) (d :: t) :=
        .step (.remove [] s c) (ihs (d :: t))
      have hinsert : Edits (leastEdits (c :: s) t + 1) (c :: s) (d :: t) :=
        .step (.insert [] (c :: s) d) (iht.cons d)
      have hmeet : Edits (if c = d then leastEdits s t else leastEdits s t + 1)
          (c :: s) (d :: t) := by
        split
        · rename_i hsame
          rw [← hsame]
          exact (ihs t).cons c
        · exact .step (.replace [] s c d) ((ihs t).cons d)
      rw [leastEdits_cons_cons]
      exact min_rec' (fun n => Edits n _ _) (min_rec' (fun n => Edits n _ _) hremove hinsert) hmeet

/-! ### One edit -/

/-- A further character of the target costs one edit at most. -/
theorem leastEdits_cons_right_le (s : List Char) (d : Char) (t : List Char) :
    leastEdits s (d :: t) ≤ leastEdits s t + 1 := by
  cases s with
  | nil => simp
  | cons c s =>
    rw [leastEdits_cons_cons]
    omega

/-- A further character of the source costs one edit at most. -/
theorem leastEdits_cons_left_le (c : Char) (s t : List Char) :
    leastEdits (c :: s) t ≤ leastEdits s t + 1 := by
  cases t with
  | nil => simp
  | cons d t =>
    rw [leastEdits_cons_cons]
    omega

/-- One character less of the source costs one edit at most. -/
theorem leastEdits_le_cons_left (c : Char) (s t : List Char) :
    leastEdits s t ≤ leastEdits (c :: s) t + 1 := by
  induction t with
  | nil =>
    simp only [leastEdits_nil_right, List.length_cons]
    omega
  | cons d t ih =>
    have hmore := leastEdits_cons_right_le s d t
    rw [leastEdits_cons_cons]
    split <;> omega

/-- Another character in the source costs one edit at most. -/
theorem leastEdits_replace_le (c d : Char) (s t : List Char) :
    leastEdits (c :: s) t ≤ leastEdits (d :: s) t + 1 := by
  induction t with
  | nil => simp
  | cons e t ih =>
    rw [leastEdits_cons_cons c, leastEdits_cons_cons d]
    split <;> split <;> omega

/-- What is within one edit of the ends of two texts is so of the texts. -/
theorem leastEdits_cons_le_of_forall (h : ∀ u, leastEdits s u ≤ leastEdits t u + 1) (c : Char)
    (u : List Char) : leastEdits (c :: s) u ≤ leastEdits (c :: t) u + 1 := by
  induction u with
  | nil => simpa using h []
  | cons d u ih =>
    have hremove := h (d :: u)
    have hmeet := h u
    rw [leastEdits_cons_cons, leastEdits_cons_cons]
    split <;> omega

/-- One edit changes the number of edits that are left by one at most. -/
theorem leastEdits_le_of_edit (h : Edit s t) (u : List Char) :
    leastEdits s u ≤ leastEdits t u + 1 := by
  -- The characters before the place of the edit are passed one by one.
  have hbefore : ∀ (before : List Char) {x y : List Char},
      (∀ u, leastEdits x u ≤ leastEdits y u + 1) →
        ∀ u, leastEdits (before ++ x) u ≤ leastEdits (before ++ y) u + 1 := by
    intro before x y hend
    induction before with
    | nil => exact hend
    | cons c before ih => exact leastEdits_cons_le_of_forall ih c
  cases h with
  | insert before after c => exact hbefore before (leastEdits_le_cons_left c after) u
  | remove before after c => exact hbefore before (leastEdits_cons_left_le c after) u
  | replace before after c d => exact hbefore before (leastEdits_replace_le c d after) u

/-- Fewer edits than the recursion counts are never enough. -/
theorem leastEdits_le_of_edits (h : Edits n s t) : leastEdits s t ≤ n := by
  induction h with
  | refl s => simp
  | @step n s t u first _ ih =>
    have hfirst := leastEdits_le_of_edit first u
    omega

/-- The recursion gives the least number of edits. -/
theorem isLeast_leastEdits (s t : List Char) : IsLeast {n | Edits n s t} (leastEdits s t) :=
  ⟨edits_leastEdits s t, fun _ h => leastEdits_le_of_edits h⟩

theorem leastEdits_reverse (s t : List Char) :
    leastEdits s.reverse t.reverse = leastEdits s t := by
  apply Nat.le_antisymm
  · exact leastEdits_le_of_edits (edits_leastEdits s t).reverse
  · exact leastEdits_le_of_edits (edits_reverse_iff.mp (edits_leastEdits _ _))

/-! ### Rows -/

/-- The row of a source beyond its entry for `t`, both written backwards: the least numbers of edits
for every longer beginning of the target. -/
def rowBeyond (s t : List Char) : List Char → List Nat
  | [] => []
  | d :: more => leastEdits s (d :: t) :: rowBeyond s (d :: t) more

/-- The row of a source, written backwards, over the beginnings of a target. -/
def row (s target : List Char) : List Nat :=
  leastEdits s [] :: rowBeyond s [] target

/-- A row is computed from the row above it. -/
theorem distanceRow_rowBeyond (c : Char) (s t more : List Char) :
    distanceRow c more (leastEdits s t) (leastEdits (c :: s) t) (rowBeyond s t more) =
      rowBeyond (c :: s) t more := by
  induction more generalizing t with
  | nil => rfl
  | cons d more ih => rw [rowBeyond, distanceRow, ← leastEdits_cons_cons, ih, rowBeyond]

/-- The rows of further source characters end with the row of the whole source. -/
theorem distanceRows_row (target s more : List Char) :
    distanceRows target more (row s target) = row (more.reverse ++ s) target := by
  induction more generalizing s with
  | nil => rfl
  | cons c more ih =>
    have hcorner : leastEdits s [] + 1 = leastEdits (c :: s) [] := by simp
    rw [row, distanceRows, hcorner, distanceRow_rowBeyond, ← row, ih, List.reverse_cons,
      List.append_assoc, List.singleton_append]

theorem rowBeyond_nil (t more : List Char) :
    rowBeyond [] t more = List.range' (t.length + 1) more.length := by
  induction more generalizing t with
  | nil => rfl
  | cons d more ih => simp [rowBeyond, ih, List.range'_succ]

/-- The first row counts the characters that are inserted. -/
theorem row_nil (target : List Char) : row [] target = List.range (target.length + 1) := by
  simp [row, rowBeyond_nil, List.range_eq_range', List.range'_succ]

/-- The last entry of a row is for the whole target. -/
theorem getLast?_row (s target : List Char) :
    (row s target).getLast? = some (leastEdits s target.reverse) := by
  have hbeyond : ∀ (more t : List Char),
      (leastEdits s t :: rowBeyond s t more).getLast? =
        some (leastEdits s (more.reverse ++ t)) := by
    intro more
    induction more with
    | nil => simp [rowBeyond]
    | cons d more ih =>
      intro t
      rw [rowBeyond, List.getLast?_cons_cons, ih (d :: t)]
      simp
  have hall := hbeyond target []
  rwa [List.append_nil] at hall

/-! ### The distance -/

/-- The distance that is computed row by row is the least number of edits. -/
theorem editDistance_eq (s t : List Char) : editDistance s t = leastEdits s t := by
  rw [editDistance, ← row_nil, distanceRows_row, List.append_nil, getLast?_row, Option.getD_some,
    leastEdits_reverse]

theorem isLeast_editDistance (s t : List Char) : IsLeast {n | Edits n s t} (editDistance s t) := by
  rw [editDistance_eq]
  exact isLeast_leastEdits s t

/-- Only a text itself is at distance zero. -/
theorem editDistance_eq_zero_iff : editDistance s t = 0 ↔ s = t := by
  constructor
  · intro h
    have hedits := (isLeast_editDistance s t).1
    rw [h] at hedits
    cases hedits
    rfl
  · rintro rfl
    simp [editDistance_eq]

end Phrasebook.Text

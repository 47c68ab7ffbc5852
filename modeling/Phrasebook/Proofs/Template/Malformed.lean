import Mathlib.Algebra.Ring.Parity
import Mathlib.Data.List.DropRight
import Phrasebook.Proofs.Template.Writing

/-!
# Malformed templates

The reader goes from the left and stops at the first brace that opens a placeholder without an end.
What it does to a whole text can be told without following it: only what stands behind the last
closing brace counts, and there the runs of opening braces. Such a run is read in pairs, and from a
run of odd length its last brace is left over.

* `Template.closed` and `Template.unclosed`: a text up to its last closing brace, and the rest;
* `Template.close_follows_iff`: where the last closing brace is tells what the reader asks for;
* `Template.OpenRun` and `Template.FirstOddRun`: maximal runs of opening braces, and the first one
  of odd length;
* `Template.Covers`: pieces that take up a text to its end;
* `Template.fails_at_first_odd_run`: which texts cannot be read, and where they fail.
-/

namespace Phrasebook

open Text

namespace Template

/-- A text up to its last closing brace. -/
def closed (cs : List Char) : List Char :=
  cs.rdropWhile (· != '}')

/-- What stands behind the last closing brace of a text, the whole of it if there is none. -/
def unclosed (cs : List Char) : List Char :=
  cs.rtakeWhile (· != '}')

/-- A text holds `n` opening braces in a row, and no further one on either side of them. -/
structure OpenRun (cs before : List Char) (n : Nat) (after : List Char) : Prop where
  /-- The text is what stands before the run, the run, and what stands after it. -/
  parts : cs = before ++ (List.replicate n '{' ++ after)
  /-- The run is not empty. -/
  pos : 0 < n
  /-- It does not go on to the left. -/
  left : before.getLast? ≠ some '{'
  /-- It does not go on to the right. -/
  right : after.head? ≠ some '{'

/-- A run of odd length, and no other such run begins further left. -/
structure FirstOddRun (cs before : List Char) (n : Nat) (after : List Char) : Prop
    extends OpenRun cs before n after where
  /-- The length is odd. -/
  odd : Odd n
  /-- Every run of odd length begins here or further right. -/
  first : ∀ before' n' after', OpenRun cs before' n' after' → Odd n' →
    before.length ≤ before'.length

/-- A piece that is taken off the front of a text, and the rest of the text. -/
inductive Takes : Piece → List Char → List Char → Prop where
  | char (c : Char) {rest : List Char} : Takes (.char c) (c :: rest) rest
  | pair {c : Char} {rest : List Char} (hc : c = '{' ∨ c = '}') :
      Takes (.char c) (c :: c :: rest) rest
  | slot {before name after rest : List Char} (hbefore : ∀ c ∈ before, isAsciiBlank c = true)
      (hname : isName name = true) (hafter : ∀ c ∈ after, isAsciiBlank c = true) :
      Takes (.slot name) ('{' :: (before ++ (name ++ (after ++ '}' :: rest)))) rest

/-- Pieces that together take up a text, up to its end. -/
inductive Covers : List Piece → List Char → Prop where
  | nil : Covers [] []
  | char (c : Char) {ps : List Piece} {cs : List Char} (h : Covers ps cs) :
      Covers (.char c :: ps) (c :: cs)
  | pair {c : Char} {ps : List Piece} {cs : List Char} (hc : c = '{' ∨ c = '}')
      (h : Covers ps cs) : Covers (.char c :: ps) (c :: c :: cs)
  | slot {before name after : List Char} {ps : List Piece} {cs : List Char}
      (hbefore : ∀ c ∈ before, isAsciiBlank c = true) (hname : isName name = true)
      (hafter : ∀ c ∈ after, isAsciiBlank c = true) (h : Covers ps cs) :
      Covers (.slot name :: ps) ('{' :: (before ++ (name ++ (after ++ '}' :: cs))))

variable {cs before after rest : List Char} {ps : List Piece} {n : Nat}

/-! ### The last closing brace -/

theorem closed_append_unclosed (cs : List Char) : closed cs ++ unclosed cs = cs :=
  List.rdropWhile_append_rtakeWhile

/-- What stands before a closing brace does not matter. -/
theorem unclosed_append_cons (before cs : List Char) :
    unclosed (before ++ '}' :: cs) = unclosed cs := by
  -- From the right, the brace is met before anything that stands in front of it.
  induction cs using List.reverseRecOn with
  | nil =>
    rw [unclosed, List.rtakeWhile_concat_neg _ _ _ (by simp)]
    rfl
  | append_singleton cs c ih =>
    rw [← List.cons_append, ← List.append_assoc, unclosed, unclosed]
    by_cases hc : c = '}'
    · rw [List.rtakeWhile_concat_neg _ _ _ (by simp [hc]),
        List.rtakeWhile_concat_neg _ _ _ (by simp [hc])]
    · rw [List.rtakeWhile_concat_pos _ _ _ (by simp [hc]),
        List.rtakeWhile_concat_pos _ _ _ (by simp [hc])]
      exact congrArg (· ++ [c]) ih

theorem unclosed_append_of_mem (before : List Char) (h : '}' ∈ cs) :
    unclosed (before ++ cs) = unclosed cs := by
  obtain ⟨left, right, rfl⟩ := List.append_of_mem h
  rw [← List.append_assoc, unclosed_append_cons, unclosed_append_cons]

theorem unclosed_of_notMem (h : '}' ∉ cs) : unclosed cs = cs := by
  refine List.rtakeWhile_eq_self_iff.mpr ?_
  intro c hc
  simpa using ne_of_mem_of_not_mem hc h

/-- The byte position of the last closing brace. -/
def lastClose? : List Char → Option Nat
  | [] => none
  | c :: cs =>
    match lastClose? cs with
    | some close => some (c.utf8Size + close)
    | none => if c = '}' then some 0 else none

theorem lastClose?_eq_none_iff : lastClose? cs = none ↔ '}' ∉ cs := by
  induction cs with
  | nil => simp [lastClose?]
  | cons c cs ih =>
    rw [lastClose?]
    cases hlast : lastClose? cs with
    | none =>
      have hrest : '}' ∉ cs := ih.mp hlast
      simp [hrest, eq_comm]
    | some close =>
      have hrest : '}' ∈ cs := by simpa [hlast] using ih
      simp [hrest]

theorem lastClose?_lt {close : Nat} (h : lastClose? cs = some close) : close < byteLength cs := by
  induction cs generalizing close with
  | nil => cases h
  | cons c cs ih =>
    have hsize : 0 < c.utf8Size := c.utf8Size_pos
    rw [byteLength_cons]
    rw [lastClose?] at h
    cases hlast : lastClose? cs with
    | none =>
      simp only [hlast, Option.ite_none_right_eq_some, Option.some.injEq] at h
      omega
    | some inner =>
      have hinner := ih hlast
      simp only [hlast, Option.some.injEq] at h
      omega

/-- A closing brace further on is the last one, wherever others stand. -/
theorem lastClose?_append (before cs : List Char) :
    lastClose? (before ++ cs) =
      ((lastClose? cs).map (byteLength before + ·)).or (lastClose? before) := by
  induction before with
  | nil => simp [byteLength, lastClose?]
  | cons c before ih =>
    rw [List.cons_append, lastClose?, ih, byteLength_cons, lastClose?]
    cases lastClose? cs with
    | none => simp
    | some close => simp [Nat.add_assoc]

/-- Whether a closing brace follows an opening one can be told from the position of the last closing
brace of the whole text: it is there and not before the opening one. -/
theorem close_follows_iff (before cs : List Char) :
    '}' ∈ cs ↔ ∃ close, lastClose? (before ++ '{' :: cs) = some close ∧
      offsetOf (before ++ '{' :: cs) ('{' :: cs) ≤ close := by
  have hopen : '}' ∈ '{' :: cs ↔ '}' ∈ cs := by simp
  rw [offsetOf_append, lastClose?_append, ← hopen]
  cases hlast : lastClose? ('{' :: cs) with
  | none =>
    -- Without one further on, the last one stands before.
    have hnone := lastClose?_eq_none_iff.mp hlast
    refine iff_of_false hnone ?_
    rintro ⟨close, hbefore, hle⟩
    exact absurd (lastClose?_lt hbefore) (Nat.not_lt.mpr hle)
  | some close =>
    have hmem : '}' ∈ '{' :: cs := by
      by_contra hnone
      rw [lastClose?_eq_none_iff.mpr hnone] at hlast
      cases hlast
    exact iff_of_true hmem ⟨byteLength before + close, rfl, Nat.le_add_right _ _⟩

/-! ### The brace that is left over -/

/-- A text from its first opening brace on that is not one of a pair. -/
def leftOver? : List Char → Option (List Char)
  | [] => none
  | '{' :: '{' :: cs => leftOver? cs
  | '{' :: cs => some ('{' :: cs)
  | _ :: cs => leftOver? cs

theorem leftOver?_cons_of_ne {c : Char} (h : c ≠ '{') : leftOver? (c :: cs) = leftOver? cs := by
  rw [leftOver?]
  · intro _ hc
    exact absurd hc h
  · exact h

/-- What does not go on with an opening brace does not begin with one. -/
theorem head?_ne_open (h : ∀ rest, cs = '{' :: rest → False) : cs.head? ≠ some '{' := by
  intro hhead
  obtain ⟨rest, rfl⟩ := List.head?_eq_some_iff.mp hhead
  exact h rest rfl

theorem leftOver?_open (h : cs.head? ≠ some '{') : leftOver? ('{' :: cs) = some ('{' :: cs) := by
  rw [leftOver?]
  intro rest hrest
  simp [hrest] at h

/-- Where a text does not end in an opening brace, the text behind it is read on its own. -/
theorem leftOver?_append (h : before.getLast? ≠ some '{') (rest : List Char) :
    leftOver? (before ++ rest) =
      match leftOver? before with
      | some left => some (left ++ rest)
      | none => leftOver? rest := by
  induction before using leftOver?.induct with
  | case1 => rfl
  | case2 cs ih =>
    refine ih ?_
    intro hlast
    simp [List.getLast?_cons, hlast] at h
  | case3 cs hne =>
    -- The brace is not the last character, so what follows it is no brace.
    cases cs with
    | nil => simp at h
    | cons c cs =>
      have hc : c ≠ '{' := by
        rintro rfl
        exact hne cs rfl
      rw [leftOver?_open (by simpa using hc)]
      exact leftOver?_open (by simpa using hc)
  | case4 c cs hpair hopen ih =>
    rw [List.cons_append, leftOver?_cons_of_ne hopen, leftOver?_cons_of_ne hopen]
    refine ih ?_
    intro hlast
    simp [List.getLast?_cons, hlast] at h

theorem leftOver?_replicate_append (h : after.head? ≠ some '{') (n : Nat) :
    leftOver? (List.replicate n '{' ++ after) =
      if Odd n then some ('{' :: after) else leftOver? after := by
  induction n using Nat.twoStepInduction with
  | zero => rfl
  | one => exact leftOver?_open h
  | more n ih _ =>
    show leftOver? (List.replicate n '{' ++ after) = _
    rw [ih]
    simp [Nat.odd_add]

/-- Where there is a run of odd length, some brace is left over: this one, or one further left. -/
theorem OpenRun.leftOver?_ne_none (h : OpenRun cs before n after) (hodd : Odd n) :
    leftOver? cs ≠ none := by
  rw [h.parts, leftOver?_append h.left, leftOver?_replicate_append h.right, if_pos hodd]
  cases leftOver? before <;> simp

/-- The brace that is left over is the last one of a run of odd length. -/
theorem exists_openRun (h : leftOver? cs = some rest) :
    ∃ before n after, OpenRun cs before n after ∧ Odd n ∧ leftOver? before = none ∧
      rest = '{' :: after := by
  induction cs using leftOver?.induct with
  | case1 => cases h
  | case2 cs ih =>
    obtain ⟨before, n, after, hrun, hodd, hnone, hrest⟩ := ih h
    -- The pair lengthens the run if it stands next to it.
    cases before with
    | nil =>
      refine ⟨[], n + 2, after, ⟨?_, by omega, by simp, hrun.right⟩, ?_, rfl, hrest⟩
      · rw [hrun.parts]
        rfl
      · simpa [Nat.odd_add] using hodd
    | cons c before =>
      refine ⟨'{' :: '{' :: c :: before, n, after, ⟨?_, hrun.pos, ?_, hrun.right⟩, hodd, hnone,
        hrest⟩
      · rw [hrun.parts]
        rfl
      · simpa using hrun.left
  | case3 cs hne =>
    have hright := head?_ne_open hne
    rw [leftOver?_open hright] at h
    cases h
    exact ⟨[], 1, cs, ⟨rfl, by omega, by simp, hright⟩, odd_one, rfl, rfl⟩
  | case4 c cs hpair hopen ih =>
    rw [leftOver?_cons_of_ne hopen] at h
    obtain ⟨before, n, after, hrun, hodd, hnone, hrest⟩ := ih h
    refine ⟨c :: before, n, after, ⟨?_, hrun.pos, ?_, hrun.right⟩, hodd, ?_, hrest⟩
    · rw [hrun.parts]
      rfl
    · cases before with
      | nil => simpa using hopen
      | cons d before => simpa using hrun.left
    · rwa [leftOver?_cons_of_ne hopen]

/-! ### The first run of odd length -/

/-- A run that begins inside a text which does not end in an opening brace ends inside it. -/
theorem OpenRun.of_length_lt {before' after' : List Char} {n' : Nat}
    (h' : OpenRun cs before' n' after') (h : OpenRun cs before n after)
    (hlt : before'.length < before.length) :
    ∃ after'', OpenRun before before' n' after'' := by
  have hparts : (before' ++ List.replicate n' '{') ++ after' =
      before ++ (List.replicate n '{' ++ after) := by
    rw [List.append_assoc, ← h'.parts, h.parts]
  rcases List.append_eq_append_iff.mp hparts with ⟨more, hbefore, hafter⟩ | ⟨more, hlong, -⟩
  · refine ⟨more, by rw [hbefore, List.append_assoc], h'.pos, h'.left, ?_⟩
    have hright := h'.right
    intro hmore
    rw [hafter, List.head?_append, hmore] at hright
    exact hright rfl
  -- Otherwise the text ends within the run, and so in an opening brace.
  · rcases List.append_eq_append_iff.mp hlong with ⟨inner, hinner, hreplicate⟩ | ⟨inner, hinner, -⟩
    · have hne : inner ≠ [] := by
        rintro rfl
        simp [hinner] at hlt
      have hlast : inner.getLast hne = '{' := by
        refine List.eq_of_mem_replicate (n := n') ?_
        rw [hreplicate]
        exact List.mem_append_left _ (List.getLast_mem hne)
      refine absurd ?_ h.left
      rw [hinner, List.getLast?_append_of_ne_nil _ hne, List.getLast?_eq_some_getLast hne, hlast]
    · have hlength := congrArg List.length hinner
      rw [List.length_append] at hlength
      omega

/-- A run is told by where it begins. -/
theorem OpenRun.unique {before' after' : List Char} {n' : Nat} (h : OpenRun cs before n after)
    (h' : OpenRun cs before' n' after') (hlength : before.length = before'.length) :
    before = before' ∧ n = n' ∧ after = after' := by
  obtain ⟨hbefore, hrest⟩ := List.append_inj (h.parts.symm.trans h'.parts) hlength
  -- The run is the longest one at the front of the rest.
  have hrun : ∀ m, ∀ c ∈ List.replicate m '{', (c == '{') = true := by
    intro m c hc
    simp [List.eq_of_mem_replicate hc]
  have hstops : ∀ tail : List Char, tail.head? ≠ some '{' → Stops (· == '{') tail := by
    intro tail htail c hc
    have hne : c ≠ '{' := by
      rintro rfl
      exact htail hc
    simpa using hne
  have htaken := congrArg (List.takeWhile (· == '{')) hrest
  have hdropped := congrArg (List.dropWhile (· == '{')) hrest
  rw [takeWhile_append_of_stops (hrun n) (hstops after h.right),
    takeWhile_append_of_stops (hrun n') (hstops after' h'.right)] at htaken
  rw [dropWhile_append_of_stops (hrun n) (hstops after h.right),
    dropWhile_append_of_stops (hrun n') (hstops after' h'.right)] at hdropped
  exact ⟨hbefore, by simpa using congrArg List.length htaken, hdropped⟩

theorem exists_firstOddRun (h : leftOver? cs = some rest) :
    ∃ before n after, FirstOddRun cs before n after ∧ rest = '{' :: after := by
  obtain ⟨before, n, after, hrun, hodd, hnone, hrest⟩ := exists_openRun h
  refine ⟨before, n, after, { toOpenRun := hrun, odd := hodd, first := ?_ }, hrest⟩
  intro before' n' after' hrun' hodd'
  -- A run further left would end before this one, where no brace is left over.
  by_contra hlt
  obtain ⟨after'', hinside⟩ := hrun'.of_length_lt hrun (by omega)
  exact hinside.leftOver?_ne_none hodd' hnone

theorem FirstOddRun.leftOver?_eq_some (h : FirstOddRun cs before n after) :
    leftOver? cs = some ('{' :: after) := by
  -- Some brace is left over, by a first run of odd length, and there is but one such run.
  obtain ⟨rest, hrest⟩ := Option.ne_none_iff_exists'.mp (h.toOpenRun.leftOver?_ne_none h.odd)
  obtain ⟨before', n', after', h', rfl⟩ := exists_firstOddRun hrest
  have hlength : before.length = before'.length :=
    le_antisymm (h.first _ _ _ h'.toOpenRun h'.odd) (h'.first _ _ _ h.toOpenRun h.odd)
  obtain ⟨-, -, rfl⟩ := h.toOpenRun.unique h'.toOpenRun hlength
  exact hrest

/-! ### Reading a text to its end -/

/-- A placeholder is a name between blanks, and a closing brace. -/
theorem exists_of_takeSlot {name : List Char} (h : takeSlot cs = some (name, rest)) :
    ∃ before after, (∀ c ∈ before, isAsciiBlank c = true) ∧ (∀ c ∈ after, isAsciiBlank c = true) ∧
      cs = before ++ (name ++ (after ++ '}' :: rest)) := by
  rw [takeSlot] at h
  split at h
  · cases h
  · rename_i found left htake
    split at h
    · rename_i left' hbrace
      cases h
      have hblank : ∀ ds : List Char, ∀ c ∈ ds.takeWhile isAsciiBlank, isAsciiBlank c = true :=
        fun ds c hc => List.all_eq_true.mp List.all_takeWhile c hc
      refine ⟨cs.takeWhile isAsciiBlank, left.takeWhile isAsciiBlank, hblank cs, hblank left, ?_⟩
      have hname := (takeName_eq_some_iff.mp htake).1
      rw [← hbrace, skipAsciiBlanks, List.takeWhile_append_dropWhile, ← hname, skipAsciiBlanks,
        List.takeWhile_append_dropWhile]
    · cases h

section Opening

variable (hopen : ∀ rest, cs = '{' :: rest → False)

include hopen

theorem pieces_of_takeSlot {name : List Char} (h : takeSlot cs = some (name, rest)) :
    pieces ('{' :: cs) = (pieces rest).map (.slot name :: ·) := by
  rw [pieces_open hopen, h]

/-- A brace that opens no placeholder is text before a closing brace. -/
theorem pieces_stray (h : takeSlot cs = none) (hclose : '}' ∈ cs) :
    pieces ('{' :: cs) = (pieces cs).map (.char '{' :: ·) := by
  rw [pieces_open hopen, h]
  exact if_pos hclose

theorem pieces_unterminated (h : takeSlot cs = none) (hclose : '}' ∉ cs) :
    pieces ('{' :: cs) = .error ('{' :: cs) := by
  rw [pieces_open hopen, h]
  exact if_neg hclose

end Opening

theorem map_eq_error_iff {r : Except (List Char) (List Piece)} {f : List Piece → List Piece} :
    r.map f = .error rest ↔ r = .error rest := by
  cases r <;> simp [Except.map]

theorem leftOver?_unclosed_cons {c : Char} (h : c ≠ '{') :
    leftOver? (unclosed (c :: cs)) = leftOver? (unclosed cs) := by
  by_cases hmem : '}' ∈ cs
  · exact congrArg leftOver? (unclosed_append_of_mem [c] hmem)
  · by_cases hc : c = '}'
    · rw [hc]
      exact congrArg leftOver? (unclosed_append_cons [] cs)
    · rw [unclosed_of_notMem (by simp [Ne.symm hc, hmem]), leftOver?_cons_of_ne h,
        unclosed_of_notMem hmem]

theorem leftOver?_unclosed_pair :
    leftOver? (unclosed ('{' :: '{' :: cs)) = leftOver? (unclosed cs) := by
  by_cases hmem : '}' ∈ cs
  · exact congrArg leftOver? (unclosed_append_of_mem ['{', '{'] hmem)
  · rw [unclosed_of_notMem (by simp [hmem]), unclosed_of_notMem hmem]
    rfl

/-- The reader stops at the brace that is left over behind the last closing brace. -/
theorem pieces_eq_error_iff : pieces cs = .error rest ↔ leftOver? (unclosed cs) = some rest := by
  -- One case for each way in which the reader goes on: no step leads over the last closing brace.
  induction cs using pieces.induct with
  | case1 =>
    rw [pieces]
    simp [unclosed, leftOver?]
  | case2 cs ih =>
    rw [pieces, map_eq_error_iff, ih, leftOver?_unclosed_pair]
  | case3 cs ih =>
    rw [pieces, map_eq_error_iff, ih, leftOver?_unclosed_cons (by decide),
      leftOver?_unclosed_cons (by decide)]
  | case4 cs hne name left htake ih =>
    obtain ⟨before, after, -, -, hcs⟩ := exists_of_takeSlot htake
    -- The placeholder ends in a closing brace, so nothing before it is behind the last one.
    have hunclosed : unclosed ('{' :: cs) = unclosed left := by
      rw [hcs, ← unclosed_append_cons ('{' :: (before ++ (name ++ after))) left]
      simp
    rw [pieces_of_takeSlot hne htake, hunclosed]
    exact map_eq_error_iff.trans ih
  | case5 cs hne htake hclose ih =>
    have hunclosed : unclosed ('{' :: cs) = unclosed cs := unclosed_append_of_mem ['{'] hclose
    rw [pieces_stray hne htake hclose, hunclosed]
    exact map_eq_error_iff.trans ih
  | case6 cs hne htake hclose =>
    rw [pieces_unterminated hne htake hclose, unclosed_of_notMem (by simp [hclose]),
      leftOver?_open (head?_ne_open hne)]
    simp
  | case7 c cs hopen hclose hne ih =>
    rw [leftOver?_unclosed_cons hne, ← ih, pieces]
    · exact map_eq_error_iff
    all_goals assumption

/-- Reading ends with the text, or takes a piece off its front. -/
theorem pieces_cases (h : pieces cs = .ok ps) :
    (ps = [] ∧ cs = []) ∨ ∃ p qs rest, ps = p :: qs ∧ Takes p cs rest ∧ pieces rest = .ok qs := by
  -- Which piece is taken off goes with the case of the reader.
  have htaken : ∀ {p cs rest}, Takes p cs rest → (pieces rest).map (p :: ·) = .ok ps →
      ∃ p qs rest, ps = p :: qs ∧ Takes p cs rest ∧ pieces rest = .ok qs := by
    intro p cs rest htakes hmap
    obtain ⟨qs, hqs, rfl⟩ := exists_of_map_cons hmap
    exact ⟨p, qs, rest, rfl, htakes, hqs⟩
  fun_cases pieces cs with
  | case1 =>
    rw [pieces] at h
    cases h
    exact Or.inl ⟨rfl, rfl⟩
  | case2 cs =>
    rw [pieces] at h
    exact Or.inr (htaken (.pair (Or.inl rfl)) h)
  | case3 cs =>
    rw [pieces] at h
    exact Or.inr (htaken (.pair (Or.inr rfl)) h)
  | case4 cs hne name rest htake =>
    rw [pieces_of_takeSlot hne htake] at h
    obtain ⟨before, after, hbefore, hafter, rfl⟩ := exists_of_takeSlot htake
    exact Or.inr (htaken (.slot hbefore (isName_of_takeSlot htake) hafter) h)
  | case5 cs hne htake hclose =>
    rw [pieces_stray hne htake hclose] at h
    exact Or.inr (htaken (.char _) h)
  | case6 cs hne htake hclose =>
    rw [pieces_unterminated hne htake hclose] at h
    cases h
  | case7 c cs hopen hclose hne =>
    rw [pieces] at h
    · exact Or.inr (htaken (.char c) h)
    all_goals assumption

/-- The first piece is taken off the text, and the others are read from what is left. -/
theorem exists_takes {p : Piece} (h : pieces cs = .ok (p :: ps)) :
    ∃ rest, Takes p cs rest ∧ pieces rest = .ok ps := by
  rcases pieces_cases h with ⟨hnil, -⟩ | ⟨p', qs, rest, hcons, htakes, hrest⟩
  · cases hnil
  · cases hcons
    exact ⟨rest, htakes, hrest⟩

/-- What is read takes up the text to its end. -/
theorem covers_of_pieces (h : pieces cs = .ok ps) : Covers ps cs := by
  induction ps generalizing cs with
  | nil =>
    rcases pieces_cases h with ⟨-, rfl⟩ | ⟨p, qs, rest, hcons, -⟩
    · exact .nil
    · cases hcons
  | cons p ps ih =>
    obtain ⟨rest, htakes, hrest⟩ := exists_takes h
    cases htakes with
    | char c => exact .char c (ih hrest)
    | pair hc => exact .pair hc (ih hrest)
    | slot hbefore hname hafter => exact .slot hbefore hname hafter (ih hrest)

/-! ### Which texts cannot be read -/

theorem OpenRun.parts_last (h : OpenRun cs before n after) :
    cs = (before ++ List.replicate (n - 1) '{') ++ '{' :: after := by
  have hn : n = (n - 1) + 1 := (Nat.succ_pred_eq_of_pos h.pos).symm
  rw [h.parts, hn, List.replicate_succ']
  simp

/-- The last brace of a run stands behind as many bytes as the text before it has. -/
theorem OpenRun.offsetOf_last (h : OpenRun (unclosed cs) before n after) :
    offsetOf cs ('{' :: after) =
      byteLength (closed cs ++ (before ++ List.replicate (n - 1) '{')) := by
  have hcs : cs = (closed cs ++ (before ++ List.replicate (n - 1) '{')) ++ '{' :: after := by
    rw [List.append_assoc, ← h.parts_last, closed_append_unclosed]
  rw [← offsetOf_append _ ('{' :: after), ← hcs]

theorem read_eq_error_iff {source : String} {offset : Nat} :
    read source = .error offset ↔
      ∃ rest, pieces source.toList = .error rest ∧ offset = offsetOf source.toList rest := by
  rw [read]
  cases pieces source.toList with
  | ok ps => simp
  | error rest => simp [eq_comm]

/-- A text cannot be read just if a run of opening braces behind its last closing brace has odd
length, and then it fails at the last brace of the first such run. Any other text is read to its
end. -/
theorem fails_at_first_odd_run (source : String) :
    ((∃ offset, read source = .error offset) ↔
      ∃ before n after, OpenRun (unclosed source.toList) before n after ∧ Odd n) ∧
    (∀ offset, read source = .error offset ↔
      ∃ before n after, FirstOddRun (unclosed source.toList) before n after ∧
        offset = byteLength (closed source.toList ++ (before ++ List.replicate (n - 1) '{'))) ∧
    ((∀ before n after, OpenRun (unclosed source.toList) before n after → ¬ Odd n) →
      ∃ ps, Covers ps source.toList ∧ read source = .ok ⟨assemble [] ps⟩) := by
  have hfails : ∀ rest, pieces source.toList = .error rest →
      ∃ before n after, FirstOddRun (unclosed source.toList) before n after ∧
        rest = '{' :: after :=
    fun rest hrest => exists_firstOddRun (pieces_eq_error_iff.mp hrest)
  refine ⟨⟨?_, ?_⟩, fun offset => ⟨?_, ?_⟩, ?_⟩
  · rintro ⟨offset, hread⟩
    obtain ⟨rest, hrest, -⟩ := read_eq_error_iff.mp hread
    obtain ⟨before, n, after, hrun, -⟩ := hfails rest hrest
    exact ⟨before, n, after, hrun.toOpenRun, hrun.odd⟩
  · rintro ⟨before, n, after, hrun, hodd⟩
    obtain ⟨rest, hrest⟩ := Option.ne_none_iff_exists'.mp (hrun.leftOver?_ne_none hodd)
    exact ⟨_, read_eq_error_iff.mpr ⟨rest, pieces_eq_error_iff.mpr hrest, rfl⟩⟩
  · intro hread
    obtain ⟨rest, hrest, rfl⟩ := read_eq_error_iff.mp hread
    obtain ⟨before, n, after, hrun, rfl⟩ := hfails rest hrest
    exact ⟨before, n, after, hrun, hrun.toOpenRun.offsetOf_last⟩
  · rintro ⟨before, n, after, hrun, rfl⟩
    refine read_eq_error_iff.mpr ⟨'{' :: after, ?_, hrun.toOpenRun.offsetOf_last.symm⟩
    exact pieces_eq_error_iff.mpr hrun.leftOver?_eq_some
  · intro heven
    cases hpieces : pieces source.toList with
    | ok ps => exact ⟨ps, covers_of_pieces hpieces, by rw [read, hpieces]⟩
    | error rest =>
      obtain ⟨before, n, after, hrun, -⟩ := hfails rest hpieces
      exact absurd hrun.odd (heven before n after hrun.toOpenRun)

/-- Of three braces the third is left over, and its position counts the bytes of all before it. -/
theorem fails_at_first_odd_run_bytes :
    read "\x7bé\x7d \x7b\x7b\x7b x" = .error 7 := by
  refine ((fails_at_first_odd_run _).2.1 7).mpr ⟨[' '], 3, [' ', 'x'], ?_, by decide⟩
  refine { parts := by decide, pos := by decide, left := by decide, right := by decide,
           odd := by decide, first := ?_ }
  intro before n after hrun _
  -- The text does not begin with a brace, so no run stands at its front.
  refine List.length_pos_iff.mpr ?_
  rintro rfl
  obtain ⟨m, rfl⟩ : ∃ m, n = m + 1 := ⟨n - 1, by have := hrun.pos; omega⟩
  exact absurd (List.cons.inj hrun.parts).1 (by decide)

end Template

end Phrasebook

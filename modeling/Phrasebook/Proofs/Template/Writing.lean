import Mathlib.Data.List.Chain
import Phrasebook.Proofs.Text.Characters
import Phrasebook.Template.Basic

/-!
# Templates written as texts

A list of parts is written with every brace of its literals doubled and every placeholder in braces,
with any ASCII blanks around the name. Reading the text gives the list back, also where braces of
neighbouring parts touch: whatever follows, doubled braces are read in pairs from the left, and what
opens a placeholder is followed by a blank or a name and never by a second brace.

* `Template.Written`: what counts as writing a list of parts;
* `Template.Canonical`: the lists that are ever read, without empty or adjacent literals;
* `Template.read_undoes_writing`: reading undoes writing on exactly those lists.
-/

namespace Phrasebook

open Text

/-- Whether a part is literal text. -/
def Segment.isLiteral : Segment → Bool
  | .literal _ => true
  | .placeholder _ => false

namespace Template

/-- Literal text as it is written. -/
def doubled (cs : List Char) : List Char :=
  cs.flatMap fun c => if c = '{' ∨ c = '}' then [c, c] else [c]

/-- A list of parts and a text that it can be written as. -/
inductive Written : List Segment → List Char → Prop where
  | nil : Written [] []
  | literal (text : String) {rest : List Segment} {cs : List Char} (h : Written rest cs) :
      Written (.literal text :: rest) (doubled text.toList ++ cs)
  | placeholder (name : String) {before after : List Char} {rest : List Segment} {cs : List Char}
      (hbefore : ∀ c ∈ before, isAsciiBlank c = true) (hafter : ∀ c ∈ after, isAsciiBlank c = true)
      (h : Written rest cs) :
      Written (.placeholder name :: rest)
        ('{' :: (before ++ (name.toList ++ (after ++ '}' :: cs))))

/-- Lists of parts in which no literal is empty, no two literals are neighbours, and placeholders
have names. -/
structure Canonical (segments : List Segment) : Prop where
  /-- No literal is empty. -/
  filled : ∀ text, .literal text ∈ segments → text ≠ ""
  /-- What stands in braces is a name. -/
  named : ∀ name, .placeholder name ∈ segments → isName name.toList = true
  /-- Two literals are never neighbours. -/
  apart : segments.IsChain fun s t => ¬ (s.isLiteral = true ∧ t.isLiteral = true)

/-- The pieces that a part is read as. -/
def segmentPieces : Segment → List Piece
  | .literal text => text.toList.map .char
  | .placeholder name => [.slot name.toList]

/-! ### Reading what was written -/

section Pieces

variable {cs name before after rest : List Char} {ps : List Piece}

/-- An opening brace is a placeholder, or text if some brace closes after it. -/
theorem pieces_open (h : ∀ rest, cs = '{' :: rest → False) :
    pieces ('{' :: cs) = match takeSlot cs with
      | some (name, rest) => (pieces rest).map (.slot name :: ·)
      | none => if '}' ∈ cs then (pieces cs).map (.char '{' :: ·) else .error ('{' :: cs) := by
  rw [pieces]
  · split <;> simp_all
  · exact h

theorem pieces_cons_of_ne {c : Char} (hopen : c ≠ '{') (hclose : c ≠ '}') (h : pieces cs = .ok ps) :
    pieces (c :: cs) = .ok (.char c :: ps) := by
  rw [pieces, h]
  · rfl
  · intro _ hc
    exact absurd hc hopen
  · intro _ hc
    exact absurd hc hclose
  · exact hopen

/-- Doubled text stands for itself, whatever follows it. -/
theorem pieces_doubled_append (text : List Char) (h : pieces rest = .ok ps) :
    pieces (doubled text ++ rest) = .ok (text.map .char ++ ps) := by
  -- By induction on the text: a brace is read as a pair, every other character alone.
  induction text with
  | nil => exact h
  | cons c text ih =>
    have hcons : doubled (c :: text) ++ rest =
        (if c = '{' ∨ c = '}' then [c, c] else [c]) ++ (doubled text ++ rest) := by
      simp [doubled]
    rw [hcons]
    by_cases hopen : c = '{'
    · rw [if_pos (Or.inl hopen), hopen]
      show pieces ('{' :: '{' :: (doubled text ++ rest)) = _
      rw [pieces, ih]
      rfl
    · by_cases hclose : c = '}'
      · rw [if_pos (Or.inr hclose), hclose]
        show pieces ('}' :: '}' :: (doubled text ++ rest)) = _
        rw [pieces, ih]
        rfl
      · rw [if_neg (by simp [hopen, hclose])]
        exact pieces_cons_of_ne hopen hclose ih

theorem isBlank_of_isAsciiBlank {c : Char} (h : isAsciiBlank c = true) : isBlank c = true := by
  simp only [isAsciiBlank, Bool.or_eq_true, beq_iff_eq] at h
  rcases h with (((rfl | rfl) | rfl) | rfl) | rfl <;> rfl

theorem isAsciiBlank_eq_false_of_isNameStart {c : Char} (h : isNameStart c = true) :
    isAsciiBlank c = false := by
  cases hblank : isAsciiBlank c with
  | false => rfl
  | true =>
    have hrest := isNameRest_eq_false_of_isBlank (isBlank_of_isAsciiBlank hblank)
    rw [isNameRest_of_isNameStart h] at hrest
    cases hrest

theorem isNameRest_brace : isNameRest '{' = false ∧ isNameRest '}' = false := by
  decide +kernel

/-- A name in braces is taken, up to the brace that ends it. -/
theorem takeSlot_eq_some (hbefore : ∀ c ∈ before, isAsciiBlank c = true)
    (hname : isName name = true) (hafter : ∀ c ∈ after, isAsciiBlank c = true) (rest : List Char) :
    takeSlot (before ++ (name ++ (after ++ '}' :: rest))) = some (name, rest) := by
  -- The blanks end where the name starts, and the name where blanks or the brace come.
  have hstart : Stops isAsciiBlank (name ++ (after ++ '}' :: rest)) := by
    cases name with
    | nil => cases hname
    | cons c name =>
      have hfirst := (isName_cons.mp hname).1
      exact stops_cons.mpr (isAsciiBlank_eq_false_of_isNameStart hfirst)
  have hend : Stops isNameRest (after ++ '}' :: rest) := by
    cases after with
    | nil => exact stops_cons.mpr isNameRest_brace.2
    | cons c after =>
      have hblank := isBlank_of_isAsciiBlank (hafter c List.mem_cons_self)
      exact stops_cons.mpr (isNameRest_eq_false_of_isBlank hblank)
  have hskip : skipAsciiBlanks (before ++ (name ++ (after ++ '}' :: rest))) =
      name ++ (after ++ '}' :: rest) :=
    dropWhile_append_of_stops hbefore hstart
  have hskip' : skipAsciiBlanks (after ++ '}' :: rest) = '}' :: rest :=
    dropWhile_append_of_stops hafter (stops_cons.mpr rfl)
  rw [takeSlot, hskip, takeName_eq_some_iff.mpr ⟨rfl, hname, hend⟩]
  dsimp only
  rw [hskip']
  rfl

/-- What follows the brace that opens a placeholder is not a second one. -/
theorem head_slot_ne (hbefore : ∀ c ∈ before, isAsciiBlank c = true) (hname : isName name = true)
    (rest more : List Char) : before ++ (name ++ rest) ≠ '{' :: more := by
  intro h
  cases before with
  | cons c before =>
    have hblank := hbefore c List.mem_cons_self
    rw [(List.cons.inj h).1] at hblank
    cases hblank
  | nil =>
    cases name with
    | nil => cases hname
    | cons c name =>
      have hrest := isNameRest_of_isNameStart (isName_cons.mp hname).1
      rw [(List.cons.inj h).1, isNameRest_brace.1] at hrest
      cases hrest

theorem pieces_slot (hbefore : ∀ c ∈ before, isAsciiBlank c = true) (hname : isName name = true)
    (hafter : ∀ c ∈ after, isAsciiBlank c = true) (h : pieces rest = .ok ps) :
    pieces ('{' :: (before ++ (name ++ (after ++ '}' :: rest)))) = .ok (.slot name :: ps) := by
  rw [pieces_open (head_slot_ne hbefore hname _), takeSlot_eq_some hbefore hname hafter rest]
  dsimp only
  rw [h]
  rfl

end Pieces

variable {segments rest : List Segment} {cs : List Char} {ps : List Piece}

theorem pieces_of_written (h : Written segments cs)
    (hnamed : ∀ name, .placeholder name ∈ segments → isName name.toList = true) :
    pieces cs = .ok (segments.flatMap segmentPieces) := by
  induction h with
  | nil => rw [pieces]; rfl
  | literal text _ ih =>
    rw [List.flatMap_cons]
    refine pieces_doubled_append text.toList (ih ?_)
    intro name hname
    exact hnamed name (List.mem_cons_of_mem _ hname)
  | placeholder name hbefore hafter _ ih =>
    rw [List.flatMap_cons]
    refine pieces_slot hbefore (hnamed name List.mem_cons_self) hafter (ih ?_)
    intro other hother
    exact hnamed other (List.mem_cons_of_mem _ hother)

/-! ### Gathering pieces -/

theorem assemble_chars (run text : List Char) (ps : List Piece) :
    assemble run (text.map .char ++ ps) = assemble (text.reverse ++ run) ps := by
  induction text generalizing run with
  | nil => rfl
  | cons c text ih =>
    rw [List.map_cons, List.cons_append, assemble, ih]
    simp

theorem flush_reverse {text : String} (h : text ≠ "") :
    flush text.toList.reverse = [.literal text] := by
  have hne : text.toList.reverse.isEmpty = false := by simpa using h
  rw [flush, hne]
  simp

/-- The pieces of a canonical list are gathered into that list, where a literal is not continued. -/
theorem assemble_flatMap (h : Canonical segments) (run : List Char)
    (hrun : run = [] ∨ ∀ s ∈ segments.head?, s.isLiteral = false) :
    assemble run (segments.flatMap segmentPieces) = flush run ++ segments := by
  -- By induction on the parts, for every run that the first of them does not continue.
  induction segments generalizing run with
  | nil => simp [assemble]
  | cons first rest ih =>
    obtain ⟨hfilled, hnamed, hapart⟩ := h
    obtain ⟨hnext, hrest⟩ := List.isChain_cons.mp hapart
    have hcanonical : Canonical rest :=
      { filled := fun text htext => hfilled text (List.mem_cons_of_mem first htext)
        named := fun name hname => hnamed name (List.mem_cons_of_mem first hname)
        apart := hrest }
    rw [List.flatMap_cons]
    cases first with
    | literal text =>
      have hnil : run = [] := by
        rcases hrun with hnil | hhead
        · exact hnil
        · cases hhead _ rfl
      -- The run is this literal, and the part after it is no literal.
      have hrun' : ∀ s ∈ rest.head?, s.isLiteral = false := by
        intro s hs
        have hboth := hnext s hs
        simpa [Segment.isLiteral] using hboth
      rw [hnil, segmentPieces, assemble_chars, List.append_nil, ih hcanonical _ (Or.inr hrun'),
        flush_reverse (hfilled text List.mem_cons_self)]
      rfl
    | placeholder name =>
      rw [segmentPieces, List.singleton_append, assemble, ih hcanonical [] (Or.inl rfl)]
      simp [flush]

theorem read_of_written {source : String} (hcanonical : Canonical segments)
    (h : Written segments source.toList) : read source = .ok ⟨segments⟩ := by
  rw [read, pieces_of_written h hcanonical.named]
  simp [assemble_flatMap hcanonical [] (Or.inl rfl), flush]

/-! ### What can be read -/

theorem isName_of_takeSlot {name rest : List Char} (h : takeSlot cs = some (name, rest)) :
    isName name = true := by
  rw [takeSlot] at h
  split at h
  · cases h
  · rename_i found left htake
    split at h
    · cases h
      exact (takeName_eq_some_iff.mp htake).2.1
    · cases h

/-- Pieces whose placeholders are names. -/
def Named (ps : List Piece) : Prop :=
  ∀ name, .slot name ∈ ps → isName name = true

theorem Named.char (c : Char) (h : Named ps) : Named (.char c :: ps) := by
  intro name hname
  exact h name (by simpa using hname)

theorem Named.slot {name : List Char} (hname : isName name = true) (h : Named ps) :
    Named (.slot name :: ps) := by
  intro other hother
  rcases List.mem_cons.mp hother with heq | hother
  · cases heq
    exact hname
  · exact h other hother

theorem exists_of_map_cons {r : Except (List Char) (List Piece)} {p : Piece}
    (h : r.map (p :: ·) = .ok ps) : ∃ qs, r = .ok qs ∧ ps = p :: qs := by
  cases r with
  | error e => cases h
  | ok qs =>
    cases h
    exact ⟨qs, rfl, rfl⟩

/-- What is read as a placeholder is a name. -/
theorem named_pieces (h : pieces cs = .ok ps) : Named ps := by
  -- One case for each way in which the reader goes on; only one of them adds a placeholder.
  induction cs using pieces.induct generalizing ps with
  | case1 =>
    rw [pieces] at h
    cases h
    simp [Named]
  | case2 cs ih | case3 cs ih =>
    rw [pieces] at h
    obtain ⟨qs, hqs, rfl⟩ := exists_of_map_cons h
    exact (ih hqs).char _
  | case4 cs hne name rest htake ih =>
    rw [pieces_open hne, htake] at h
    obtain ⟨qs, hqs, rfl⟩ := exists_of_map_cons h
    exact (ih hqs).slot (isName_of_takeSlot htake)
  | case5 cs hne htake hclose ih =>
    rw [pieces_open hne, htake] at h
    dsimp only at h
    rw [if_pos hclose] at h
    obtain ⟨qs, hqs, rfl⟩ := exists_of_map_cons h
    exact (ih hqs).char _
  | case6 cs hne htake hclose =>
    rw [pieces_open hne, htake] at h
    dsimp only at h
    rw [if_neg hclose] at h
    cases h
  | case7 c cs hopen hclose hne ih =>
    rw [pieces] at h
    · obtain ⟨qs, hqs, rfl⟩ := exists_of_map_cons h
      exact (ih hqs).char _
    all_goals assumption

theorem Canonical.nil : Canonical [] :=
  { filled := by simp, named := by simp, apart := .nil }

theorem Canonical.placeholder {name : String} (hname : isName name.toList = true)
    (h : Canonical rest) : Canonical (.placeholder name :: rest) where
  filled text htext := by simpa using h.filled text (by simpa using htext)
  named other hother := by
    rcases List.mem_cons.mp hother with heq | hother
    · cases heq
      exact hname
    · exact h.named other hother
  apart := List.isChain_cons.mpr ⟨by simp [Segment.isLiteral], h.apart⟩

theorem Canonical.literal {text : String} (htext : text ≠ "") (h : Canonical rest)
    (hrest : ∀ s ∈ rest.head?, s.isLiteral = false) : Canonical (.literal text :: rest) where
  filled other hother := by
    rcases List.mem_cons.mp hother with heq | hother
    · cases heq
      exact htext
    · exact h.filled other hother
  named name hname := h.named name (by simpa using hname)
  apart := by
    refine List.isChain_cons.mpr ⟨?_, h.apart⟩
    intro s hs hboth
    rw [hrest s hs] at hboth
    cases hboth.2

/-- A run of characters may stand before a part that is no literal. -/
theorem Canonical.flush_append (run : List Char) (h : Canonical rest)
    (hrest : ∀ s ∈ rest.head?, s.isLiteral = false) : Canonical (flush run ++ rest) := by
  rw [flush]
  split
  · exact h
  · rename_i hrun
    refine h.literal ?_ hrest
    intro hempty
    have hnil := congrArg String.toList hempty
    simp_all

/-- Gathering pieces gives a canonical list. -/
theorem canonical_assemble (run : List Char) (h : Named ps) : Canonical (assemble run ps) := by
  induction ps generalizing run with
  | nil =>
    rw [assemble, ← List.append_nil (flush run)]
    exact Canonical.nil.flush_append run (by simp)
  | cons p ps ih =>
    have hrest : Named ps := fun name hname => h name (List.mem_cons_of_mem p hname)
    cases p with
    | char c => exact ih (c :: run) hrest
    | slot name =>
      have hname := h name List.mem_cons_self
      refine Canonical.flush_append run ((ih [] hrest).placeholder (by simpa using hname)) ?_
      simp [Segment.isLiteral]

theorem canonical_of_read {source : String} {t : Template} (h : read source = .ok t) :
    Canonical t.segments := by
  rw [read] at h
  split at h
  · rename_i ps hps
    cases h
    exact canonical_assemble [] (named_pieces hps)
  · cases h

/-! ### The round trip -/

theorem exists_written (segments : List Segment) : ∃ cs, Written segments cs := by
  induction segments with
  | nil => exact ⟨[], .nil⟩
  | cons first rest ih =>
    obtain ⟨cs, hcs⟩ := ih
    cases first with
    | literal text => exact ⟨_, .literal text hcs⟩
    | placeholder name =>
      have hnone : ∀ c ∈ ([] : List Char), isAsciiBlank c = true := by simp
      exact ⟨_, .placeholder name hnone hnone hcs⟩

/-- Reading undoes writing. A canonical list of parts can be written, every text that it is written
as is read as that list, and every list that is read from any text is canonical. -/
theorem read_undoes_writing :
    (∀ segments, Canonical segments →
      (∃ source : String, Written segments source.toList) ∧
        ∀ source : String, Written segments source.toList → read source = .ok ⟨segments⟩) ∧
      ∀ (source : String) (t : Template), read source = .ok t → Canonical t.segments := by
  refine ⟨?_, fun source t h => canonical_of_read h⟩
  intro segments hcanonical
  refine ⟨?_, fun source h => read_of_written hcanonical h⟩
  obtain ⟨cs, hcs⟩ := exists_written segments
  exact ⟨String.ofList cs, by simpa using hcs⟩

/-- Braces that touch pair up from the left: of three, a doubled one and the one of the placeholder
before a name, and the other way round after it. -/
theorem read_undoes_writing_touching :
    Canonical [.literal "\x7b", .placeholder "x", .literal "\x7d"] ∧
      read "{{{ x }}}" = .ok ⟨[.literal "\x7b", .placeholder "x", .literal "\x7d"]⟩ := by
  have hcanonical : Canonical [.literal "\x7b", .placeholder "x", .literal "\x7d"] := by
    refine .literal (by decide) (.placeholder (by decide +kernel) ?_) (by simp [Segment.isLiteral])
    exact .literal (by decide) .nil (by simp)
  have hwritten : Written [.literal "\x7b", .placeholder "x", .literal "\x7d"]
      "{{{ x }}}".toList := by
    have hlast : Written [.literal "\x7d"] (doubled "\x7d".toList ++ []) := .literal "\x7d" .nil
    have hblank : ∀ c ∈ [' '], isAsciiBlank c = true := List.forall_mem_singleton.mpr rfl
    exact .literal "\x7b" (.placeholder "x" hblank hblank hlast)
  exact ⟨hcanonical, (read_undoes_writing.1 _ hcanonical).2 _ hwritten⟩

end Template

end Phrasebook

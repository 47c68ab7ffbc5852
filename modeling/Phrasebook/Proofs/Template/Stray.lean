import Mathlib.Data.List.Infix
import Phrasebook.Proofs.Template.Malformed
import Phrasebook.Template.Render

/-!
# Stray braces

A brace stands for less than itself only where it is doubled. In a template without doubled braces
every character is shown or belongs to a placeholder, so the parts, put one behind the other, give
the template back: whatever the reader takes for the beginning of a placeholder and has to give up
again is there as text, and in its place. And it gives up only where no placeholder begins.

* `Template.Undoubled`: the texts without doubled braces;
* `Template.Verbatim`: a list of parts and a text that it is the same as;
* `Template.Covers.verbatim`: no character of such a text is lost or moved;
* `Template.not_infix_of_mem_assemble`: no placeholder of it is left as text;
* `Template.stray_braces_stand`: so a template without doubled braces is the same as its parts.
-/

namespace Phrasebook

open Text

namespace Template

/-- A text in which no brace stands twice in a row. -/
structure Undoubled (cs : List Char) : Prop where
  /-- No opening brace is doubled. -/
  opening : ¬ ['{', '{'] <:+: cs
  /-- No closing brace is doubled. -/
  closing : ¬ ['}', '}'] <:+: cs

instance (cs : List Char) : Decidable (Undoubled cs) :=
  decidable_of_iff (¬ ['{', '{'] <:+: cs ∧ ¬ ['}', '}'] <:+: cs)
    ⟨fun h => ⟨h.1, h.2⟩, fun h => ⟨h.opening, h.closing⟩⟩

/-- A list of parts and a text that it is the same as: literal text stands as it is, and every
placeholder in braces, with any ASCII blanks around its name. -/
inductive Verbatim : List Segment → List Char → Prop where
  | nil : Verbatim [] []
  | literal (text : String) {rest : List Segment} {cs : List Char} (h : Verbatim rest cs) :
      Verbatim (.literal text :: rest) (text.toList ++ cs)
  | placeholder (name : String) {before after : List Char} {rest : List Segment} {cs : List Char}
      (hbefore : ∀ c ∈ before, isAsciiBlank c = true) (hafter : ∀ c ∈ after, isAsciiBlank c = true)
      (h : Verbatim rest cs) :
      Verbatim (.placeholder name :: rest)
        ('{' :: (before ++ (name.toList ++ (after ++ '}' :: cs))))

/-- A placeholder as a text. -/
def IsSlot (cs : List Char) : Prop :=
  ∃ before name after, (∀ c ∈ before, isAsciiBlank c = true) ∧ isName name = true ∧
    (∀ c ∈ after, isAsciiBlank c = true) ∧ cs = '{' :: (before ++ (name ++ (after ++ ['}'])))

variable {cs rest slot text : List Char} {ps qs : List Piece} {segments : List Segment}

/-! ### Texts without doubled braces -/

/-- A part of a text without doubled braces has none. -/
theorem Undoubled.of_infix (h : Undoubled cs) (hrest : rest <:+: cs) : Undoubled rest where
  opening hpair := h.opening (hpair.trans hrest)
  closing hpair := h.closing (hpair.trans hrest)

/-- A text that goes on with a pair of braces has a doubled brace. -/
theorem not_undoubled_pair {c : Char} (hc : c = '{' ∨ c = '}') : ¬ Undoubled (c :: c :: cs) := by
  intro h
  have hpair : [c, c] <:+: c :: c :: cs := (List.prefix_append [c, c] cs).isInfix
  rcases hc with rfl | rfl
  · exact h.opening hpair
  · exact h.closing hpair

/-- What is left of a text is the end of it. -/
theorem Takes.suffix {p : Piece} (h : Takes p cs rest) : rest <:+ cs := by
  cases h with
  | char c => exact List.suffix_cons c rest
  | @pair c => exact ⟨[c, c], rfl⟩
  | @slot before name after =>
    exact ⟨'{' :: (before ++ (name ++ (after ++ ['}']))), by simp⟩

/-! ### Pieces and parts -/

/-- A run of characters stands in front as it is. -/
theorem Verbatim.flush_append (run : List Char) (h : Verbatim segments cs) :
    Verbatim (flush run ++ segments) (run.reverse ++ cs) := by
  rw [flush]
  split
  · rename_i hrun
    simpa [List.isEmpty_iff.mp hrun] using h
  · simpa using h.literal (String.ofList run.reverse)

/-- Pieces that take up a text without doubled braces are gathered into parts that are the same as
the text, behind any run of characters. -/
theorem Covers.verbatim (h : Covers ps cs) (hsingle : Undoubled cs) (run : List Char) :
    Verbatim (assemble run ps) (run.reverse ++ cs) := by
  -- By induction on the pieces, each of which stands for a character or a placeholder of the text.
  induction h generalizing run with
  | nil => simpa [assemble] using Verbatim.nil.flush_append run
  | char c h ih =>
    have hrest := hsingle.of_infix (Takes.char c).suffix.isInfix
    simpa [assemble] using ih hrest (c :: run)
  | pair hc => exact absurd hsingle (not_undoubled_pair hc)
  | @slot before name after ps cs hbefore hname hafter h ih =>
    have hsuffix : cs <:+ _ := (Takes.slot hbefore hname hafter).suffix
    have hrest := ih (hsingle.of_infix hsuffix.isInfix) []
    have hslot := (hrest.placeholder (String.ofList name) hbefore hafter).flush_append run
    simpa [assemble] using hslot

/-! ### Literal text holds no placeholder -/

/-- A text that begins with a placeholder is read as one. -/
theorem exists_pieces_of_isSlot (h : IsSlot slot) (rest : List Char) :
    ∃ name, pieces (slot ++ rest) = (pieces rest).map (.slot name :: ·) := by
  obtain ⟨before, name, after, hbefore, hname, hafter, rfl⟩ := h
  have htake := takeSlot_eq_some hbefore hname hafter rest
  have hopen := head_slot_ne hbefore hname (after ++ '}' :: rest)
  refine ⟨name, ?_⟩
  simpa using pieces_of_takeSlot hopen htake

/-- Pieces further right are read from a text further right. -/
theorem exists_suffix_of_pieces (h : pieces cs = .ok (ps ++ qs)) :
    ∃ rest, rest <:+ cs ∧ pieces rest = .ok qs := by
  induction ps generalizing cs with
  | nil => exact ⟨cs, List.suffix_refl cs, h⟩
  | cons p ps ih =>
    obtain ⟨next, htakes, hnext⟩ := exists_takes h
    obtain ⟨rest, hrest, hread⟩ := ih hnext
    exact ⟨rest, hrest.trans htakes.suffix, hread⟩

/-- A character that is read from a text without doubled braces is its first one. -/
theorem exists_rest_of_char {c : Char} (hsingle : Undoubled cs)
    (h : pieces cs = .ok (.char c :: ps)) :
    ∃ rest, cs = c :: rest ∧ Undoubled rest ∧ pieces rest = .ok ps := by
  obtain ⟨rest, htakes, hrest⟩ := exists_takes h
  have hsingle' := hsingle.of_infix htakes.suffix.isInfix
  cases htakes with
  | char => exact ⟨rest, rfl, hsingle', hrest⟩
  | pair hc => exact absurd hsingle (not_undoubled_pair hc)

/-- Characters that are read from a text without doubled braces are those it begins with. -/
theorem prefix_of_pieces (hsingle : Undoubled cs) (h : pieces cs = .ok (text.map .char ++ qs)) :
    text <+: cs := by
  induction text generalizing cs with
  | nil => exact List.nil_prefix
  | cons c text ih =>
    obtain ⟨rest, rfl, hsingle', hrest⟩ := exists_rest_of_char hsingle h
    exact (List.prefix_cons_inj c).mpr (ih hsingle' hrest)

/-- Characters that are read from a text without doubled braces hold no placeholder. -/
theorem not_infix_of_pieces (hsingle : Undoubled cs) (h : pieces cs = .ok (text.map .char ++ qs))
    (hslot : IsSlot slot) : ¬ slot <:+: text := by
  induction text generalizing cs with
  | nil =>
    obtain ⟨before, name, after, -, -, -, rfl⟩ := hslot
    simp
  | cons c text ih =>
    intro hinfix
    rcases List.infix_cons_iff.mp hinfix with hprefix | hinside
    · -- The text itself begins with the placeholder then, and would not be read as characters.
      obtain ⟨rest, rfl⟩ := hprefix.trans (prefix_of_pieces hsingle h)
      obtain ⟨name, hread⟩ := exists_pieces_of_isSlot hslot rest
      rw [hread] at h
      obtain ⟨ps, -, hps⟩ := exists_of_map_cons h
      cases hps
    · obtain ⟨rest, rfl, hsingle', hrest⟩ := exists_rest_of_char hsingle h
      exact ih hsingle' hrest hinside

/-- Gathering pieces loses none of them. -/
theorem flatMap_assemble (run : List Char) (ps : List Piece) :
    (assemble run ps).flatMap segmentPieces = run.reverse.map .char ++ ps := by
  have hflush : ∀ run : List Char, (flush run).flatMap segmentPieces = run.reverse.map .char := by
    intro run
    rw [flush]
    split
    · simp_all
    · simp [segmentPieces]
  -- By induction on the pieces, for every run of characters that was gathered before them.
  induction ps generalizing run with
  | nil => rw [assemble, hflush, List.append_nil]
  | cons p ps ih =>
    cases p with
    | char c => rw [assemble, ih]; simp
    | slot name =>
      rw [assemble, List.flatMap_append, hflush, List.flatMap_cons, ih]
      simp [segmentPieces]

/-- A literal of a template without doubled braces holds no placeholder. -/
theorem not_infix_of_mem_assemble (hsingle : Undoubled cs) (h : pieces cs = .ok ps)
    {literal : String} (hmem : .literal literal ∈ assemble [] ps) (hslot : IsSlot slot) :
    ¬ slot <:+: literal.toList := by
  -- The characters of the literal are some of the pieces, and read from a part of the text.
  obtain ⟨left, right, hparts⟩ := List.append_of_mem hmem
  have hps : ps = left.flatMap segmentPieces ++
      (literal.toList.map .char ++ right.flatMap segmentPieces) := by
    have hall := flatMap_assemble [] ps
    rw [hparts, List.flatMap_append, List.flatMap_cons] at hall
    exact hall.symm
  rw [hps] at h
  obtain ⟨rest, hsuffix, hread⟩ := exists_suffix_of_pieces h
  exact not_infix_of_pieces (hsingle.of_infix hsuffix.isInfix) hread hslot

/-! ### Templates shown as they are -/

/-- Literal text is shown in front of the parts after it. -/
theorem render_literal_cons (text : String) (segments : List Segment) (params : Params)
    (set : EscapeSet) :
    render ⟨.literal text :: segments⟩ params set =
      (render ⟨segments⟩ params set).map (text ++ ·) := by
  unfold render
  rw [List.mapM_cons, renderSegment]
  cases segments.mapM (renderSegment params set) with
  | error failure => rfl
  | ok texts => simp [Except.map, bind, Except.bind, pure, Except.pure, String.join_cons]

/-- Parts without placeholders are shown as the text that they are the same as. -/
theorem Verbatim.render_eq (h : Verbatim segments cs) (hnone : placeholders ⟨segments⟩ = [])
    (params : Params) (set : EscapeSet) :
    render ⟨segments⟩ params set = .ok (String.ofList cs) := by
  induction h with
  | nil => rfl
  | literal text h ih =>
    rw [render_literal_cons, ih hnone, String.ofList_append, String.ofList_toList]
    rfl
  | placeholder name => cases hnone

/-- **Stray braces stand for themselves.** A template that can be read and has no doubled brace is
the same as its parts, put one behind the other with every placeholder in its braces, and only
braces that are stray are left in literal text: it holds no placeholder. Without a placeholder the
template is shown as it is, whatever the parameters and the escapes. -/
theorem stray_braces_stand {source : String} {t : Template} (hread : read source = .ok t)
    (hsingle : Undoubled source.toList) :
    Verbatim t.segments source.toList ∧
      (∀ text, .literal text ∈ t.segments → ∀ slot, IsSlot slot → ¬ slot <:+: text.toList) ∧
      (t.placeholders = [] → ∀ params set, substitute source params set = .ok source) := by
  obtain ⟨ps, hps, rfl⟩ : ∃ ps, pieces source.toList = .ok ps ∧ t = ⟨assemble [] ps⟩ := by
    rw [read] at hread
    split at hread
    · rename_i ps hps
      cases hread
      exact ⟨ps, hps, rfl⟩
    · cases hread
  have hverbatim : Verbatim (assemble [] ps) source.toList :=
    (covers_of_pieces hps).verbatim hsingle []
  refine ⟨hverbatim, fun text hmem slot => not_infix_of_mem_assemble hsingle hps hmem, ?_⟩
  intro hnone params set
  rw [substitute, hread]
  simpa using hverbatim.render_eq hnone params set

/-- Braces around nothing, around a number, in the wrong order and before a placeholder are text,
and a template of such braces alone is shown as it is. -/
theorem stray_braces_stand_nested :
    Verbatim [.literal "\x7d \x7b1\x7d \x7ba", .placeholder "b", .literal " \x7b\x7d"]
        "\x7d \x7b1\x7d \x7ba\x7b b\x7d \x7b\x7d".toList ∧
      substitute "\x7d \x7b1\x7d \x7b\x7d" .empty .html = .ok "\x7d \x7b1\x7d \x7b\x7d" := by
  have hnested : read "\x7d \x7b1\x7d \x7ba\x7b b\x7d \x7b\x7d" =
      .ok ⟨[.literal "\x7d \x7b1\x7d \x7ba", .placeholder "b", .literal " \x7b\x7d"]⟩ := by
    decide +kernel
  have hplain : read "\x7d \x7b1\x7d \x7b\x7d" = .ok ⟨[.literal "\x7d \x7b1\x7d \x7b\x7d"]⟩ := by
    decide +kernel
  exact ⟨(stray_braces_stand hnested (by decide +kernel)).1,
    (stray_braces_stand hplain (by decide +kernel)).2.2 rfl .empty .html⟩

end Template

end Phrasebook

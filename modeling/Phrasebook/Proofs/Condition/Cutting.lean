import Phrasebook.Proofs.Condition.Writing

/-!
# Texts cut after a token

Where a token ends depends on the text behind it, since the longest spelling counts. But a blank
ends every token that is no text in quotes and no name in brackets, and those two end with a
character of their own. So if a text is cut after a token, the tokens in front of the cut stay what
they are, whether nothing follows there or a blank and then a text that closes no quote and no
bracket.

* `Separate rest`: the text `rest` can follow tokens without becoming a part of them;
* `Taken.continued`: tokens stay the same if what follows them is replaced by a separate text;
* `Taken.exists_tokens`: tokens are the tokens of the text in front of the cut.
-/

namespace Phrasebook.Condition

open Text

variable {cs mid rest : List Char} {t : Token} {ts : List Token}

/-- The characters that close a token which may have blanks inside. -/
def closers : List Char :=
  ['"', '\'', ']']

/-- No character of a text is a blank if none is found. -/
theorem isBlank_eq_false_of_all (h : cs.all (!isBlank ·) = true) :
    ∀ c ∈ cs, isBlank c = false := by
  simpa using h

/-- A spelling without blanks, or one that ends with a character that closes it. -/
theorem Spelled.noBlank_or_closed {text : List Char} (h : Spelled t text) :
    (∀ c ∈ text, isBlank c = false) ∨ ∃ last, text.getLast? = some last ∧ last ∈ closers := by
  have hrest : ∀ {c}, isNameRest c = true → isBlank c = false := by
    intro c hc
    cases hblank : isBlank c with
    | false => rfl
    | true =>
      rw [isNameRest_eq_false_of_isBlank hblank] at hc
      cases hc
  have hdigits : ∀ {digits}, IsDigits digits → ∀ c ∈ digits, isBlank c = false :=
    fun hdigits c hc => hrest (isNameRest_of_isDigit (hdigits.2 c hc))
  have hminus : ∀ {negative c}, c ∈ minus negative → isBlank c = false := by
    intro negative c hc
    cases negative with
    | true =>
      rw [List.mem_singleton.mp hc]
      decide
    | false => cases hc
  -- One case for each kind of spelling; only quotes and brackets may enclose blanks.
  cases h with
  | sign hmem =>
    have hsigns : ∀ entry ∈ signs, entry.1.all (!isBlank ·) = true := by decide
    exact Or.inl (isBlank_eq_false_of_all (hsigns _ hmem))
  | word hmem =>
    have hwords : ∀ entry ∈ words, entry.1.all (!isBlank ·) = true := by decide
    exact Or.inl (isBlank_eq_false_of_all (hwords _ hmem))
  | bare hname => exact Or.inl fun c hc => hrest (isNameRest_of_mem_of_isName hname.1 hc)
  | @bracketed before name after hbefore hname hafter =>
    exact Or.inr ⟨']', by simp [List.getLast?_cons, List.getLast?_append], by decide⟩
  | @quoted quote text written hquote hwritten =>
    refine Or.inr ⟨quote, by simp [List.getLast?_cons, List.getLast?_append], ?_⟩
    rcases hquote with rfl | rfl <;> decide
  | integer h =>
    left
    intro c hc
    rcases List.mem_append.mp hc with hc | hc
    · exact hminus hc
    · exact hdigits h c hc
  | float hwhole hfraction _ =>
    left
    simp only [List.mem_cons, List.mem_append]
    rintro c (hc | hc | rfl | hc)
    · exact hminus hc
    · exact hdigits hwhole c hc
    · decide
    · exact hdigits hfraction c hc

/-- Whether a text can follow tokens without becoming a part of them: it ends or goes on with a
blank, and it closes no token. -/
structure Separate (rest : List Char) : Prop where
  /-- A blank or the end comes first. -/
  apart : Apart rest
  /-- Nothing in it closes a token. -/
  closes : ∀ c ∈ rest, c ∉ closers

/-- Nothing is separate. -/
theorem separate_nil : Separate [] :=
  ⟨stops_nil, by simp⟩

/-- Blanks in front of a separate text, and so blanks alone, are separate. -/
theorem Separate.append {blanks : List Char} (hblanks : ∀ c ∈ blanks, isBlank c = true)
    (h : Separate rest) :
    Separate (blanks ++ rest) where
  apart := by
    cases blanks with
    | nil => exact h.apart
    | cons c blanks => exact stops_cons.mpr (by simp [hblanks c List.mem_cons_self])
  closes := by
    intro c hc hcloses
    rcases List.mem_append.mp hc with hc | hc
    · have hblank := hblanks c hc
      rw [isBlank_eq_false_of_all (by decide) c hcloses] at hblank
      cases hblank
    · exact h.closes c hc hcloses

/-! ### Cuts -/

/-- The longest spelling stays the longest if a text further on is replaced by a separate one. -/
theorem Longest.continued {text between rest' : List Char} (h : Longest text (between ++ rest))
    (hseparate : Separate rest') :
    Longest text (between ++ rest') := by
  intro text' after t' hsplit hspelled
  rw [← List.append_assoc] at hsplit
  rcases List.append_eq_append_iff.mp hsplit with ⟨more, htext', hrest'⟩ | ⟨more, hfront, -⟩
  · cases more with
    -- The other spelling ends at the cut, so it was there before.
    | nil =>
      rw [List.append_nil] at htext'
      exact h text' rest t' (by rw [htext', List.append_assoc]) hspelled
    -- It reaches beyond the cut: then it has the blank that comes first there, and something in
    -- the new text closes it.
    | cons c more =>
      exfalso
      have hmem : ∀ d ∈ c :: more, d ∈ rest' := by
        intro d hd
        rw [hrest']
        exact List.mem_append_left _ hd
      have hblank : isBlank c = true := by
        have hapart := hseparate.apart
        rw [hrest'] at hapart
        simpa using stops_cons.mp hapart
      rcases hspelled.noBlank_or_closed with hnone | ⟨last, hlast, hcloses⟩
      · have hnot := hnone c (by rw [htext']; simp)
        rw [hblank] at hnot
        cases hnot
      · rw [htext', List.getLast?_append, List.getLast?_cons, Option.some_or] at hlast
        have hends : last ∈ c :: more := List.mem_of_getLast? (List.getLast?_cons.trans hlast)
        exact hseparate.closes last (hmem last hends) hcloses
  · exact h text' (more ++ rest) t' (by rw [← List.append_assoc, hfront, List.append_assoc]) hspelled

/-- A token stays the same if a text further on is replaced by a separate one. -/
theorem TokenAt.continued {between : List Char} (h : TokenAt cs t (between ++ rest)) :
    ∃ front, cs = front ++ (between ++ rest) ∧
      ∀ rest', Separate rest' → TokenAt (front ++ (between ++ rest')) t (between ++ rest') := by
  obtain ⟨text, htext, hspelled, hlongest⟩ := h
  obtain ⟨blanks, hblanks, hcs⟩ := exists_blanks cs
  refine ⟨blanks ++ text, by rw [List.append_assoc, ← htext, ← hcs], ?_⟩
  intro rest' hseparate
  refine ⟨text, ?_, hspelled, hlongest.continued hseparate⟩
  rw [List.append_assoc, skipBlanks_append hblanks,
    skipBlanks_of_stops (hspelled.stops_isBlank _)]

/-- Tokens stay the same if what follows them is replaced by a separate text. -/
theorem Taken.continued (h : Taken cs ts rest) :
    ∃ front, cs = front ++ rest ∧
      ∀ rest', Separate rest' → Taken (front ++ rest') ts rest' := by
  induction h with
  | nil => exact ⟨[], rfl, fun _ _ => .nil⟩
  | cons htoken _ ih =>
    obtain ⟨between, rfl, hmore⟩ := ih
    obtain ⟨front, hcs, htoken'⟩ := htoken.continued
    refine ⟨front ++ between, by rw [hcs, List.append_assoc], ?_⟩
    intro rest' hseparate
    rw [List.append_assoc]
    exact .cons (htoken' rest' hseparate) (hmore rest' hseparate)

/-- Tokens are the tokens of the text in front of them and the blanks that follow. -/
theorem Taken.exists_tokens (h : Taken cs ts rest) :
    ∃ front, cs = front ++ skipBlanks rest ∧ Tokens front ts := by
  obtain ⟨front, hcs, hcut⟩ := h.continued
  obtain ⟨blanks, hblanks, hrest⟩ := exists_blanks rest
  have hseparate := separate_nil.append hblanks
  rw [List.append_nil] at hseparate
  refine ⟨front ++ blanks, ?_, blanks, hcut blanks hseparate, skipBlanks_eq_nil hblanks⟩
  rw [List.append_assoc, ← hrest, hcs]

end Phrasebook.Condition

import Phrasebook.Proofs.Condition.Lexeme

/-!
# Reading one token

The first character of a token tells its shape. `readToken` reads the token at the front of a text
by the reader of its shape, and so decides where tokens end. The module proves that it reads what
`TokenAt` describes:

* `exists_spelled_of_readToken`: what is read off a text spells the token;
* `Spelled.covers`: a spelling at the front of a text is read at least to its end, and exactly
  before a blank or the end;
* `tokenAt_iff`: the token after blanks is the one that is read.
-/

namespace Phrasebook.Condition

open Text Number

/-- Reads a token that begins with the first character of a text. -/
def readToken : List Char → Option (Token × List Char)
  | [] => none
  | c :: cs =>
    if c = '"' ∨ c = '\'' then
      (takeQuoted c cs).map fun (text, rest) => (.literal (.string (String.ofList text)), rest)
    else if c = '[' then
      (takeBracketed cs).map fun (name, rest) => (.param (String.ofList name), rest)
    else if c = '-' ∨ c.isDigit = true then readNumeral (c :: cs)
    else if isNameStart c = true then
      (takeName (c :: cs)).map fun (name, rest) => (wordToken name, rest)
    else readSign (c :: cs)

/-! ### The shape of a token -/

/-- A number is read where a minus sign or a digit stands. -/
theorem readToken_of_numeral {c : Char} (hc : c = '-' ∨ c.isDigit = true) (cs : List Char) :
    readToken (c :: cs) = readNumeral (c :: cs) := by
  have hquote : ¬(c = '"' ∨ c = '\'') := by
    rintro (rfl | rfl) <;> revert hc <;> decide
  have hbracket : c ≠ '[' := by
    rintro rfl
    revert hc
    decide
  rw [readToken, if_neg hquote, if_neg hbracket, if_pos hc]

/-- A name is read where one starts. -/
theorem readToken_of_isNameStart {c : Char} (hc : isNameStart c = true) (cs : List Char) :
    readToken (c :: cs) = (takeName (c :: cs)).map fun (name, rest) => (wordToken name, rest) := by
  have hquote : ¬(c = '"' ∨ c = '\'') := by
    rintro (rfl | rfl) <;> revert hc <;> decide
  have hbracket : c ≠ '[' := by
    rintro rfl
    revert hc
    decide
  have hnumeral : ¬(c = '-' ∨ c.isDigit = true) := by
    rintro (rfl | hdigit)
    · revert hc
      decide
    · rw [isNameStart_eq_false_of_isDigit hdigit] at hc
      cases hc
  rw [readToken, if_neg hquote, if_neg hbracket, if_neg hnumeral, if_pos hc]

/-- Whether a character begins no token but a sign. -/
def isSignStart (c : Char) : Bool :=
  !(c == '"' || c == '\'' || c == '[' || c == '-' || c.isDigit || isNameStart c)

/-- A sign is read where nothing else can start. -/
theorem readToken_of_isSignStart {c : Char} (hc : isSignStart c = true) (cs : List Char) :
    readToken (c :: cs) = readSign (c :: cs) := by
  simp only [isSignStart, Bool.not_eq_true', Bool.or_eq_false_iff, beq_eq_false_iff_ne] at hc
  obtain ⟨⟨⟨⟨⟨hdouble, hsingle⟩, hbracket⟩, hminus⟩, hdigit⟩, hstart⟩ := hc
  simp [readToken, hdouble, hsingle, hbracket, hminus, hdigit, hstart]

/-- Every sign begins like one. -/
theorem isSignStart_of_mem_signs {text : List Char} {t : Token} (h : (text, t) ∈ signs) :
    ∃ c more, text = c :: more ∧ isSignStart c = true := by
  have hsigns : ∀ entry ∈ signs, entry.1.head?.any isSignStart = true := by decide
  have htext := hsigns _ h
  cases text with
  | nil => cases htext
  | cons c more => exact ⟨c, more, rfl, htext⟩

/-- A name stands for its word or parameter wherever it is read. -/
theorem covers_wordToken {name : List Char} (h : isName name = true) :
    Covers readToken (wordToken name) name := by
  intro rest
  cases name with
  | nil => cases h
  | cons c name =>
    obtain ⟨hstart, hmore⟩ := isName_cons.mp h
    have htake : takeName (c :: (name ++ rest)) =
        some (c :: (name ++ rest.takeWhile isNameRest), rest.dropWhile isNameRest) := by
      rw [takeName, if_pos hstart, List.takeWhile_append_of_pos hmore,
        List.dropWhile_append_of_pos hmore]
    rw [List.cons_append, readToken_of_isNameStart hstart, htake]
    refine ⟨_, _, rfl, (List.dropWhile_sublist isNameRest).length_le, ?_⟩
    intro hapart
    -- A blank ends the name, so the longest name is no longer than this one.
    have hstops : Stops isNameRest rest := hapart.stops fun _ => isNameRest_eq_false_of_isBlank
    rw [takeWhile_of_stops hstops, dropWhile_of_stops hstops, List.append_nil]
    exact ⟨rfl, rfl⟩

/-- A number is read wherever its spelling stands. -/
theorem Covers.of_readNumeral {t : Token} {negative : Bool} {digits more : List Char}
    (hdigits : IsDigits digits)
    (h : Covers readNumeral t (minus negative ++ (digits ++ more))) :
    Covers readToken t (minus negative ++ (digits ++ more)) := by
  intro rest
  obtain ⟨d, ds, rfl, hd⟩ := hdigits.exists_cons
  obtain ⟨t', rest', hread, hreach⟩ := h rest
  refine ⟨t', rest', ?_, hreach⟩
  cases negative with
  | true => exact (readToken_of_numeral (Or.inl rfl) _).trans hread
  | false => exact (readToken_of_numeral (Or.inr hd) _).trans hread

/-- A spelling at the front of a text is read at least to its end, and exactly before a blank or
the end of the text. -/
theorem Spelled.covers {t : Token} {text : List Char} (h : Spelled t text) :
    Covers readToken t text := by
  cases h with
  | sign hmem =>
    intro rest
    obtain ⟨c, more, rfl, hc⟩ := isSignStart_of_mem_signs hmem
    rw [List.cons_append, readToken_of_isSignStart hc]
    exact covers_readSign hmem rest
  | word hmem =>
    obtain ⟨hname, rfl⟩ := isName_of_mem_words hmem
    exact covers_wordToken hname
  | bare hname =>
    rw [← hname.wordToken_eq]
    exact covers_wordToken hname.1
  | @bracketed before name after hbefore hname hafter =>
    intro rest
    have htake : takeBracketed (before ++ (name ++ (after ++ ']' :: rest))) = some (name, rest) :=
      takeBracketed_eq_some_iff.mpr ⟨before, after, hbefore, hname, hafter, rfl⟩
    refine ⟨_, rest, ?_, Nat.le_refl _, fun _ => ⟨rfl, rfl⟩⟩
    simp [readToken, htake]
  | @quoted quote text written hquote hwritten =>
    intro rest
    have hescape := ne_backslash_of_quote hquote
    refine ⟨_, rest, ?_, Nat.le_refl _, fun _ => ⟨rfl, rfl⟩⟩
    simp [readToken, hquote, hwritten.takeQuoted_append hescape]
  | @integer negative digits hdigits =>
    -- An integer is digits with nothing after them.
    have h := covers_integer hdigits negative
    rw [← List.append_nil digits] at h ⊢
    exact h.of_readNumeral hdigits
  | float hwhole hfraction hvalue =>
    exact (covers_float hwhole hfraction hvalue).of_readNumeral hwhole

/-- What is read off a text spells the token. -/
theorem exists_spelled_of_readToken {cs rest : List Char} {t : Token}
    (h : readToken cs = some (t, rest)) :
    ∃ text, cs = text ++ rest ∧ Spelled t text := by
  cases cs with
  | nil => cases h
  | cons c cs =>
    -- One case for each shape, in the order of the reader.
    rw [readToken] at h
    split at h
    · rename_i hquote
      obtain ⟨⟨text, rest'⟩, hread, heq⟩ := Option.map_eq_some_iff.mp h
      cases heq
      obtain ⟨written, rfl, hwritten⟩ := exists_quotedAs_of_takeQuoted hread
      exact ⟨c :: (written ++ [c]), by simp, .quoted hquote hwritten⟩
    split at h
    · rename_i hbracket
      obtain ⟨⟨name, rest'⟩, hread, heq⟩ := Option.map_eq_some_iff.mp h
      cases heq
      obtain ⟨before, after, hbefore, hname, hafter, rfl⟩ := takeBracketed_eq_some_iff.mp hread
      rw [hbracket]
      exact ⟨_, by simp, .bracketed hbefore hname hafter⟩
    split at h
    · exact exists_spelled_of_readNumeral h
    split at h
    · obtain ⟨⟨name, rest'⟩, hread, heq⟩ := Option.map_eq_some_iff.mp h
      cases heq
      obtain ⟨hcs, hname, -⟩ := takeName_eq_some_iff.mp hread
      exact ⟨name, hcs, spelled_wordToken hname⟩
    · obtain ⟨text, hmem, hcs⟩ := exists_sign_of_readSign h
      exact ⟨text, hcs, .sign hmem⟩

/-! ### The longest spelling -/

/-- A spelling before a blank or the end of the text is read exactly. -/
theorem Spelled.readToken_of_apart {t : Token} {text rest : List Char} (h : Spelled t text)
    (hapart : Apart rest) :
    readToken (text ++ rest) = some (t, rest) := by
  obtain ⟨t', rest', hread, -, hexact⟩ := h.covers rest
  obtain ⟨rfl, rfl⟩ := hexact hapart
  exact hread

/-- A text spells one token at most. -/
theorem Spelled.unique {t t' : Token} {text : List Char} (h : Spelled t text)
    (h' : Spelled t' text) :
    t = t' := by
  have hread : readToken (text ++ []) = some (t, []) := h.readToken_of_apart stops_nil
  rw [h'.readToken_of_apart stops_nil] at hread
  cases hread
  rfl

/-- What is read off a text is the longest spelling at its front. -/
theorem readToken_eq_some_iff {cs rest : List Char} {t : Token} :
    readToken cs = some (t, rest) ↔
      ∃ text, cs = text ++ rest ∧ Spelled t text ∧ Longest text rest := by
  constructor
  · intro h
    obtain ⟨text, rfl, hspelled⟩ := exists_spelled_of_readToken h
    refine ⟨text, rfl, hspelled, ?_⟩
    -- What is read reaches at least to the end of any spelling at the front of the text.
    intro text' rest' t' hsplit hspelled'
    obtain ⟨u, rest'', hread, hreach, -⟩ := hspelled'.covers rest'
    rw [← hsplit, h] at hread
    cases hread
    have hlength := congrArg List.length hsplit
    simp only [List.length_append] at hlength
    omega
  · rintro ⟨text, rfl, hspelled, hlongest⟩
    obtain ⟨t', rest', hread, hreach, -⟩ := hspelled.covers rest
    obtain ⟨text', hsplit, hspelled'⟩ := exists_spelled_of_readToken hread
    have hle := hlongest text' rest' t' hsplit hspelled'
    have hlength := congrArg List.length hsplit
    simp only [List.length_append] at hlength
    -- Neither spelling is longer, so both are the same part of the text.
    obtain ⟨rfl, rfl⟩ := List.append_inj hsplit (by omega)
    rw [hread, hspelled.unique hspelled']

/-- The token after blanks is the one that is read. -/
theorem tokenAt_iff {cs rest : List Char} {t : Token} :
    TokenAt cs t rest ↔ readToken (skipBlanks cs) = some (t, rest) :=
  readToken_eq_some_iff.symm

end Phrasebook.Condition

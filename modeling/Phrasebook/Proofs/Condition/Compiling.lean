import Phrasebook.Proofs.Condition.Reading

/-!
# Reading whole conditions

A text is a condition exactly if it has at most `maxBytes` bytes and its tokens derive a tree whose
parentheses nest at most `maxNesting` deep. The text is searched for parentheses that nest too deep
before it is read; a derivation that nests no deeper gets past that search, because every token but
a parenthesis leaves the depth as it is.

* `keepsDepth_derives`: the search ends a derived condition at the depth at which it began;
* `readAll_eq_ok_iff`: what a text is read as;
* `compile_eq_ok_iff`: which texts compile, and to what.
-/

namespace Phrasebook.Condition

open Text

variable {cs rest : List Char} {t : Token} {ts : List Token}

/-! ### The search for deep parentheses -/

/-- Whether a character is neither a quote nor a parenthesis. -/
def isPlain (c : Char) : Bool :=
  !(c == '"' || c == '\'' || c == '(' || c == ')')

/-- The search passes over plain characters. -/
theorem nestingOverflow?_plain {text : List Char} (h : ∀ c ∈ text, isPlain c = true) (n : Nat)
    (rest : List Char) :
    nestingOverflow? n none (text ++ rest) = nestingOverflow? n none rest := by
  induction text with
  | nil => rfl
  | cons c text ih =>
    have hc := h c List.mem_cons_self
    simp only [isPlain, Bool.not_eq_true', Bool.or_eq_false_iff, beq_eq_false_iff_ne] at hc
    obtain ⟨⟨⟨hdouble, hsingle⟩, hopening⟩, hclosing⟩ := hc
    rw [List.cons_append, nestingOverflow?, if_neg (by simp [hdouble, hsingle]),
      if_neg hopening, if_neg hclosing]
    exact ih fun d hd => h d (List.mem_cons_of_mem c hd)

/-- The search passes over the rest of a text in quotes. -/
theorem QuotedAs.nestingOverflow? {quote : Char} (hquote : quote ≠ '\\') {text written : List Char}
    (h : QuotedAs quote text written) (n : Nat) (rest : List Char) :
    nestingOverflow? n (some quote) (written ++ quote :: rest) =
      Condition.nestingOverflow? n none rest := by
  induction h with
  | nil => simp [Condition.nestingOverflow?, hquote]
  | plain hc hescape _ ih => simp [Condition.nestingOverflow?, hc, hescape, ih]
  | escaped _ ih => simp [Condition.nestingOverflow?, ih]

/-- The characters of a class without quotes and parentheses are plain. -/
theorem isPlain_of_class {p : Char → Bool} (hp : ['"', '\'', '(', ')'].all (!p ·) = true) {c : Char}
    (h : p c = true) :
    isPlain c = true := by
  cases hc : isPlain c with
  | true => rfl
  | false =>
    simp only [isPlain, Bool.not_eq_false', Bool.or_eq_true, beq_iff_eq, or_assoc] at hc
    have hmem : c ∈ ['"', '\'', '(', ')'] := by
      simpa only [List.mem_cons, List.not_mem_nil, or_false] using hc
    have hnot := List.all_eq_true.mp hp c hmem
    simp [h] at hnot

/-- A character that continues names is plain. -/
theorem isPlain_of_isNameRest {c : Char} (h : isNameRest c = true) :
    isPlain c = true :=
  isPlain_of_class (by decide) h

/-- A blank is plain. -/
theorem isPlain_of_isBlank {c : Char} (h : isBlank c = true) :
    isPlain c = true :=
  isPlain_of_class (by decide) h

/-- The sign of a number is plain. -/
theorem isPlain_of_mem_minus {negative : Bool} {c : Char} (h : c ∈ minus negative) :
    isPlain c = true := by
  cases negative with
  | true =>
    rw [List.mem_singleton.mp h]
    decide
  | false => cases h

/-- The characters of a token are plain unless it is a text in quotes or a parenthesis. -/
theorem Spelled.isPlain_or_quoted {text : List Char} (h : Spelled t text) (hopening : t ≠ .opening)
    (hclosing : t ≠ .closing) :
    (∀ c ∈ text, isPlain c = true) ∨
      ∃ quote inside written, (quote = '"' ∨ quote = '\'') ∧ QuotedAs quote inside written ∧
        text = quote :: (written ++ [quote]) := by
  have hdigits : ∀ {digits}, IsDigits digits → ∀ c ∈ digits, isPlain c = true :=
    fun hdigits c hc => isPlain_of_isNameRest (isNameRest_of_isDigit (hdigits.2 c hc))
  have hname : ∀ {name}, NamesParam name → ∀ c ∈ name, isPlain c = true :=
    fun hname c hc => isPlain_of_isNameRest (isNameRest_of_mem_of_isName hname.1 hc)
  -- One case for each kind of spelling; only quotes may enclose characters that are not plain.
  cases h with
  | sign hmem =>
    have hsigns : ∀ entry ∈ signs, entry.2 ≠ .opening → entry.2 ≠ .closing →
        entry.1.all isPlain = true := by decide
    exact Or.inl (List.all_eq_true.mp (hsigns _ hmem hopening hclosing))
  | word hmem =>
    have hwords : ∀ entry ∈ words, entry.1.all isPlain = true := by decide
    exact Or.inl (List.all_eq_true.mp (hwords _ hmem))
  | bare h => exact Or.inl (hname h)
  | bracketed hbefore h hafter =>
    left
    simp only [List.mem_cons, List.mem_append, List.not_mem_nil, or_false]
    rintro c (rfl | hc | hc | hc | rfl)
    · decide
    · exact isPlain_of_isBlank (hbefore c hc)
    · exact hname h c hc
    · exact isPlain_of_isBlank (hafter c hc)
    · decide
  | quoted hquote h => exact Or.inr ⟨_, _, _, hquote, h, rfl⟩
  | integer h =>
    left
    intro c hc
    rcases List.mem_append.mp hc with hc | hc
    · exact isPlain_of_mem_minus hc
    · exact hdigits h c hc
  | float hwhole hfraction _ =>
    left
    simp only [List.mem_cons, List.mem_append]
    rintro c (hc | hc | rfl | hc)
    · exact isPlain_of_mem_minus hc
    · exact hdigits hwhole c hc
    · decide
    · exact hdigits hfraction c hc

/-- The search passes over blanks in front of a token. -/
theorem nestingOverflow?_skipBlanks (n : Nat) (cs : List Char) :
    nestingOverflow? n none cs = nestingOverflow? n none (skipBlanks cs) := by
  obtain ⟨before, hbefore, hcs⟩ := exists_blanks cs
  conv => lhs; rw [hcs]
  exact nestingOverflow?_plain (fun c hc => isPlain_of_isBlank (hbefore c hc)) n _

/-- The search passes over every token but a parenthesis. -/
theorem TokenAt.nestingOverflow? (h : TokenAt cs t rest) (hopening : t ≠ .opening)
    (hclosing : t ≠ .closing) (n : Nat) :
    nestingOverflow? n none cs = Condition.nestingOverflow? n none rest := by
  obtain ⟨text, hcs, hspelled, -⟩ := h
  rw [nestingOverflow?_skipBlanks, hcs]
  rcases hspelled.isPlain_or_quoted hopening hclosing with
    hplain | ⟨quote, inside, written, hquote, hwritten, rfl⟩
  · exact nestingOverflow?_plain hplain n rest
  · have hinside := hwritten.nestingOverflow? (ne_backslash_of_quote hquote) n rest
    rw [List.cons_append, Condition.nestingOverflow?, if_pos hquote]
    simpa using hinside

/-- The search passes over any number of tokens without parentheses. -/
theorem Taken.nestingOverflow?_plain (h : Taken cs ts rest)
    (hts : ∀ t ∈ ts, t ≠ .opening ∧ t ≠ .closing) (n : Nat) :
    nestingOverflow? n none cs = Condition.nestingOverflow? n none rest := by
  induction h with
  | nil => rfl
  | cons htoken _ ih =>
    obtain ⟨hopening, hclosing⟩ := hts _ List.mem_cons_self
    rw [htoken.nestingOverflow? hopening hclosing,
      ih fun t ht => hts t (List.mem_cons_of_mem _ ht)]

/-- An opening parenthesis adds a level, if one is left. -/
theorem TokenAt.nestingOverflow?_opening (h : TokenAt cs .opening rest) {n : Nat}
    (hn : n < maxNesting) :
    Condition.nestingOverflow? n none cs = Condition.nestingOverflow? (n + 1) none rest := by
  rw [nestingOverflow?_skipBlanks, tokenAt_opening_iff.mp h, Condition.nestingOverflow?,
    if_neg (by decide), if_pos rfl, if_pos hn]

/-- An opening parenthesis is found if no level is left. -/
theorem TokenAt.nestingOverflow?_eq_some (h : TokenAt cs .opening rest) {n : Nat}
    (hn : maxNesting ≤ n) :
    Condition.nestingOverflow? n none cs = some ('(' :: rest) := by
  rw [nestingOverflow?_skipBlanks, tokenAt_opening_iff.mp h, Condition.nestingOverflow?,
    if_neg (by decide), if_pos rfl, if_neg (Nat.not_lt.mpr hn)]

/-- A closing parenthesis takes a level away. -/
theorem TokenAt.nestingOverflow?_closing (h : TokenAt cs .closing rest) (n : Nat) :
    Condition.nestingOverflow? n none cs = Condition.nestingOverflow? (n - 1) none rest := by
  rw [nestingOverflow?_skipBlanks, tokenAt_closing_iff.mp h, Condition.nestingOverflow?,
    if_neg (by decide), if_neg (by decide), if_pos rfl]

/-- Whether the search leaves the depth `n` as it is wherever the tokens of a derivation are. -/
def KeepsDepth (n : Nat) (lang : Language) : Prop :=
  ∀ ts e cs rest, lang ts e → Taken cs ts rest →
    nestingOverflow? n none cs = nestingOverflow? n none rest

section KeepsDepth

variable {n : Nat} {lang : Language}

/-- An operand leaves the depth as it is if a condition inside does so one level deeper. -/
theorem KeepsDepth.operand (h : KeepsDepth (n + 1) lang)
    (hn : (∃ ts e, lang ts e) → n < maxNesting) :
    KeepsDepth n (Operand lang) := by
  intro ts e cs rest hderives htaken
  cases hderives with
  | atom hatom =>
    cases htaken with
    | cons htoken more =>
      cases more
      refine htoken.nestingOverflow? ?_ ?_ n <;> rintro rfl <;> cases hatom
  | enclosed inner =>
    cases htaken with
    | cons hopening more =>
      obtain ⟨mid, hinner, hlast⟩ := more.exists_mid
      cases hlast with
      | cons hclosing more =>
        cases more
        -- The opening parenthesis adds a level, and the closing one takes it away again.
        rw [hopening.nestingOverflow?_opening (hn ⟨_, _, inner⟩), h _ _ _ _ inner hinner,
          hclosing.nestingOverflow?_closing, Nat.add_sub_cancel]

/-- A comparison leaves the depth as it is if operands do. -/
theorem KeepsDepth.comparison (h : KeepsDepth n lang) :
    KeepsDepth n (Comparison lang) := by
  intro ts e cs rest hderives htaken
  cases hderives with
  | single only => exact h _ _ _ _ only htaken
  | compared hleft hright =>
    obtain ⟨mid, htaken, hlast⟩ := htaken.exists_mid
    cases hlast with
    | cons htoken more =>
      rw [h _ _ _ _ hleft htaken, htoken.nestingOverflow? (by simp) (by simp),
        h _ _ _ _ hright more]

/-- A negation leaves the depth as it is if comparisons do. -/
theorem KeepsDepth.negation (h : KeepsDepth n lang) :
    KeepsDepth n (Negation lang) := by
  intro ts e cs rest hderives htaken
  induction hderives generalizing cs with
  | plain only => exact h _ _ _ _ only htaken
  | negated _ ih =>
    cases htaken with
    | cons htoken more => rw [htoken.nestingOverflow? (by simp) (by simp), ih _ more]

/-- A chain leaves the depth as it is if its items do. -/
theorem KeepsDepth.chain (h : KeepsDepth n lang) (op : Connective) :
    KeepsDepth n (Chain op lang) := by
  have hfurther : ∀ ts es cs rest, Further op lang ts es → Taken cs ts rest →
      nestingOverflow? n none cs = nestingOverflow? n none rest := by
    -- By induction on the items: a connective and an item leave the depth as it is.
    intro ts es cs rest hderives htaken
    induction hderives generalizing cs with
    | nil =>
      cases htaken
      rfl
    | cons first more ih =>
      cases htaken with
      | cons htoken hlast =>
        obtain ⟨mid, hfirst, hmore⟩ := hlast.exists_mid
        rw [htoken.nestingOverflow? (by simp) (by simp), h _ _ _ _ first hfirst, ih _ hmore]
  intro ts e cs rest hderives htaken
  cases hderives with
  | single only => exact h _ _ _ _ only htaken
  | several first more hne =>
    obtain ⟨mid, hfirst, hmore⟩ := htaken.exists_mid
    rw [h _ _ _ _ first hfirst, hfurther _ _ _ _ more hmore]

end KeepsDepth

/-- Where a condition can be derived, a level is left for it. -/
theorem room_of_derives {levels n : Nat} (hn : n + levels ≤ maxNesting)
    (h : ∃ ts e, Derives levels ts e) :
    n < maxNesting := by
  obtain ⟨ts, e, hderives⟩ := h
  cases levels with
  | zero => cases hderives
  | succ levels => omega

/-- The search ends a derived condition at the depth at which it began. -/
theorem keepsDepth_derives (levels n : Nat) (hn : n + levels ≤ maxNesting + 1) :
    KeepsDepth n (Derives levels) := by
  induction levels generalizing n with
  | zero =>
    intro ts e cs rest hderives
    cases hderives
  | succ levels ih =>
    have hoperands := (ih (n + 1) (by omega)).operand (room_of_derives (by omega))
    exact (hoperands.comparison.negation.chain .all).chain .any

/-- The search ends a derived operand at the depth at which it began. -/
theorem keepsDepth_operand (levels n : Nat) (hn : n + levels ≤ maxNesting) :
    KeepsDepth n (Operand (Derives levels)) :=
  (keepsDepth_derives levels (n + 1) (by omega)).operand (room_of_derives hn)

/-! ### Whole texts -/

/-- A chain has tokens if its items have. -/
theorem Chain.ne_nil {op : Connective} {lang : Language} (hitem : ∀ ts e, lang ts e → ts ≠ [])
    {e : Expr} (h : Chain op lang ts e) :
    ts ≠ [] := by
  cases h with
  | single only => exact hitem _ _ only
  | several first more hne =>
    intro hnil
    exact hitem _ _ first (List.append_eq_nil_iff.mp hnil).1

/-- A condition has tokens. -/
theorem Derives.ne_nil {levels : Nat} {e : Expr} (h : Derives levels ts e) :
    ts ≠ [] := by
  cases levels with
  | zero => cases h
  | succ levels =>
    refine Chain.ne_nil (fun ts e h => Chain.ne_nil (fun ts e h => ?_) h) h
    cases h with
    | plain only =>
      obtain ⟨t, us, rfl, -⟩ := unnegated_comparison _ _ _ only
      simp
    | negated more => simp

/-- A text that begins with tokens has something besides blanks. -/
theorem Taken.all_isBlank (h : Taken cs ts rest) (hne : ts ≠ []) :
    cs.all isBlank = false := by
  cases h with
  | nil => exact absurd rfl hne
  | cons htoken more =>
    have hread := tokenAt_iff.mp htoken
    cases hblank : cs.all isBlank with
    | false => rfl
    | true =>
      rw [skipBlanks_eq_nil (List.all_eq_true.mp hblank)] at hread
      cases hread

/-- What a text is read as. -/
theorem readAll_eq_ok_iff {e : Expr} :
    readAll cs = .ok e ↔
      byteLength cs ≤ maxBytes ∧ ∃ ts, Tokens cs ts ∧ Derives (maxNesting + 1) ts e := by
  constructor
  -- A text that is read passed the checks of its length, of blanks and of its parentheses.
  · intro h
    rw [readAll] at h
    split at h
    · cases h
    split at h
    · cases h
    split at h
    · cases h
    split at h
    · cases h
    rename_i e' rest hread
    split at h
    · rename_i hrest
      cases h
      obtain ⟨ts, hderives, htaken⟩ := sound_disjunction _ _ _ _ hread
      refine ⟨by omega, ts, ⟨rest, htaken, hrest⟩, hderives⟩
    · cases h
  -- A derivation passes the same checks, and no token is left for the reader to go on with.
  · rintro ⟨hbytes, ts, ⟨rest, htaken, hrest⟩, hderives⟩
    have hblank := htaken.all_isBlank hderives.ne_nil
    have hdepth : nestingOverflow? 0 none cs = none := by
      rw [keepsDepth_derives _ 0 (by omega) _ _ _ _ hderives htaken, nestingOverflow?_skipBlanks,
        hrest, nestingOverflow?]
    have hends : Ends IsInfix rest := by
      intro t mid htoken
      have hread := tokenAt_iff.mp htoken
      rw [hrest] at hread
      cases hread
    rw [readAll, if_neg (by omega), hblank, if_neg (by simp), hdepth]
    dsimp only
    rw [complete_disjunction _ _ _ _ _ hderives htaken hends]
    dsimp only
    rw [hrest]

/-- A text compiles exactly if it is short enough and its tokens derive a condition in which
parentheses nest at most `maxNesting` deep; the tree is the one that is derived. -/
theorem compile_eq_ok_iff {source : String} {c : Compiled} :
    compile source = .ok c ↔
      c.source = source ∧ byteLength source.toList ≤ maxBytes ∧
        ∃ ts, Tokens source.toList ts ∧ Derives (maxNesting + 1) ts c.root := by
  rw [← readAll_eq_ok_iff, compile]
  constructor
  · intro h
    split at h
    · rename_i root hread
      cases h
      exact ⟨rfl, hread⟩
    · cases h
  · rintro ⟨rfl, hread⟩
    rw [hread]

end Phrasebook.Condition

import Phrasebook.Proofs.Condition.Balance
import Phrasebook.Proofs.Condition.Cutting
import Phrasebook.Proofs.Condition.Stopping

/-!
# How deep parentheses nest

Before a condition is read, its text is searched for parentheses that nest too deep. The search
looks at characters and does not know the grammar, while the readers go down into a condition for
every parenthesis that they come to. This module shows that the two agree on what a parenthesis is.

Where the tokens of a text derive a condition, no parenthesis closes before it opens, so the depth
of the search is the number of parentheses that are open. The search stops at the first one that
opens a level too many, and finds nothing if there is none. In any other text the readers and the
search go the same way as long as the readers go on: what they have read by then is derived, so the
search has come to the same place with the same depth.

* `Taken.nestingOverflow?_eq`: the depth of the search is the number of open parentheses;
* `OpensAtOnce n cs`: at some point the readers have `n` conditions in parentheses open;
* `nesting_agrees`: the search and the readers agree.
-/

namespace Phrasebook.Condition

open Text

variable {cs mid rest : List Char} {t : Token} {ts us : List Token} {e : Expr} {levels n : Nat}

/-! ### The depth of the search -/

/-- As long as no parenthesis closes too early or opens too deep, the depth of the search is the
number of open parentheses. -/
theorem Taken.nestingOverflow?_eq (h : Taken cs ts rest) (n : Nat)
    (hclosing : ∀ us, us <+: ts → 0 ≤ n + openAfter us)
    (hopening : ∀ us, us <+: ts → n + openAfter us ≤ maxNesting) :
    nestingOverflow? n none cs = nestingOverflow? (n + openAfter ts).toNat none rest := by
  induction h generalizing n with
  | nil => simp
  | @cons cs mid rest t ts htoken _ ih =>
    have hfirst : [t] <+: t :: ts := by simp
    have hfront : ∀ us, us <+: ts → t :: us <+: t :: ts :=
      fun us hus => List.cons_prefix_cons.mpr ⟨rfl, hus⟩
    -- One step of the search is the token's rise, and the rest is shifted by it.
    obtain ⟨m, hm, hstep⟩ : ∃ m : Nat, (m : Int) = n + t.rise ∧
        nestingOverflow? n none cs = nestingOverflow? m none mid := by
      have hlow := hclosing _ hfirst
      have hhigh := hopening _ hfirst
      simp only [openAfter_cons, openAfter_nil] at hlow hhigh
      by_cases hopens : t = .opening
      · subst hopens
        rw [rise_opening] at hhigh
        exact ⟨n + 1, by simp, htoken.nestingOverflow?_opening (by omega)⟩
      by_cases hcloses : t = .closing
      · subst hcloses
        rw [rise_closing] at hlow
        exact ⟨n - 1, by rw [rise_closing]; omega, htoken.nestingOverflow?_closing n⟩
      · exact ⟨n, by simp [rise_eq_zero hopens hcloses], htoken.nestingOverflow? hopens hcloses n⟩
    have hlow : ∀ us, us <+: ts → 0 ≤ m + openAfter us := by
      intro us hus
      have hwhole := hclosing _ (hfront us hus)
      rw [openAfter_cons] at hwhole
      omega
    have hhigh : ∀ us, us <+: ts → m + openAfter us ≤ maxNesting := by
      intro us hus
      have hwhole := hopening _ (hfront us hus)
      rw [openAfter_cons] at hwhole
      omega
    rw [hstep, ih m hlow hhigh, openAfter_cons]
    congr 1
    omega

/-- A condition whose parentheses nest too deep is refused at the first that opens a level too
many. -/
theorem Tokens.nestingOverflow?_eq_some (h : Tokens cs ts) (hderives : Derives levels ts e)
    (hdeep : ¬ NestsWithin maxNesting ts) :
    ∃ before after us vs, cs = before ++ '(' :: after ∧ ts = us ++ .opening :: vs ∧
      Tokens before us ∧ Tokens after vs ∧ NestsWithin maxNesting us ∧
      openAfter us = maxNesting ∧ nestingOverflow? 0 none cs = some ('(' :: after) := by
  have hnone : NestsWithin maxNesting [] := by
    intro us hus
    simp [List.prefix_nil.mp hus]
  obtain ⟨us, vs, hts, hus, hcount⟩ := exists_opening_of_not_nestsWithin hnone hdeep
  rw [List.nil_append] at hts
  subst hts
  have hbalanced := allBalanced_derives levels _ _ hderives
  obtain ⟨rest, htaken, hrest⟩ := h
  obtain ⟨mid, hfirst, hlast⟩ := htaken.exists_mid
  cases hlast with
  | @cons _ after _ _ _ hopening hmore =>
    obtain ⟨before, hcs, hbefore⟩ := hfirst.exists_tokens
    rw [tokenAt_opening_iff.mp hopening] at hcs
    refine ⟨before, after, us, vs, hcs, rfl, hbefore, ⟨rest, hmore, hrest⟩, hus, hcount, ?_⟩
    -- Up to the parenthesis the search counts along, and there it has no level left.
    have hsearch := hfirst.nestingOverflow?_eq 0
      (fun ws hws => by simpa using hbalanced.upTo ws (hws.trans (List.prefix_append us _)))
      (fun ws hws => by simpa using hus ws hws)
    rw [hsearch, hcount]
    exact hopening.nestingOverflow?_eq_some (by simp)

/-! ### The depth of the readers -/

/-- Whether at some point a condition is read off `cs` with `n` conditions in parentheses open: so
many levels are not enough. -/
def OpensAtOnce (n : Nat) (cs : List Char) : Prop :=
  ∃ rest, disjunction n cs = .error ⟨.tooDeep, rest⟩

/-- Whether a reader does not run out of levels. -/
def Suffices {α : Type} (reader : Reader α) (cs : List Char) : Prop :=
  ∀ rest, reader cs ≠ .error ⟨.tooDeep, rest⟩

/-- Whether a reader does not run out of levels where the search, begun at depth `n`, finds
nothing. -/
def StaysWithin {α : Type} (n : Nat) (reader : Reader α) : Prop :=
  ∀ cs, nestingOverflow? n none cs = none → Suffices reader cs

section StaysWithin

variable {reader : Reader Expr} {lang : Language}

/-- The search is the same where an operand is read as it was at the front of the text. -/
theorem Resumes.nestingOverflow?_eq {isOperator : Token → Prop}
    (h : Resumes lang isOperator cs mid) (hkeeps : KeepsDepth n lang)
    (hplain : ∀ t, isOperator t → t ≠ .opening ∧ t ≠ .closing) :
    nestingOverflow? n none cs = nestingOverflow? n none mid := by
  cases h with
  | first => rfl
  | later hderives ht htaken =>
    obtain ⟨hopening, hclosing⟩ := hplain _ ht
    obtain ⟨mid', hfront, hlast⟩ := htaken.exists_mid
    cases hlast with
    | cons htoken hnone =>
      cases hnone
      rw [hkeeps _ _ _ _ hderives hfront, htoken.nestingOverflow? hopening hclosing]

/-- Operands stay within the bound if conditions in parentheses do, which the search meets one level
deeper. -/
theorem StaysWithin.operand (h : n < maxNesting → StaysWithin (n + 1) reader) :
    StaysWithin n (operand reader) := by
  intro cs hsearch rest hread
  rcases operand_eq_error hread with ⟨-, hreason⟩ | ⟨mid, hopening, hread⟩
  · simp at hreason
  -- The search has come to the same parenthesis, so a level is left.
  have hn : n < maxNesting := by
    refine Nat.lt_of_not_le fun hdeep => ?_
    rw [hopening.nestingOverflow?_eq_some hdeep] at hsearch
    cases hsearch
  rw [hopening.nestingOverflow?_opening hn] at hsearch
  rcases enclosed_eq_error hread with hinner | ⟨e, rest', -, -, hreason⟩
  · exact h hn mid hsearch rest hinner
  · simp at hreason

/-- Comparisons stay within the bound if operands do. -/
theorem StaysWithin.comparison (h : StaysWithin n reader) (hsound : Sound reader lang)
    (hkeeps : KeepsDepth n lang) :
    StaysWithin n (comparison reader) := by
  intro cs hsearch rest hread
  obtain ⟨mid, hresumes, hoperand⟩ := comparison_eq_error hsound hread
  have hplain : ∀ t, IsComparator t → t ≠ .opening ∧ t ≠ .closing := by
    rintro t ⟨op, rfl⟩
    simp
  rw [hresumes.nestingOverflow?_eq hkeeps hplain] at hsearch
  exact h mid hsearch rest hoperand

/-- Negations leave the search where it was. -/
theorem StaysWithin.negation (h : StaysWithin n reader) : StaysWithin n (negation reader) := by
  intro cs hsearch rest hread
  obtain ⟨count, mid, hnots, hcomparison⟩ := negation_eq_error hread
  rw [hnots.nestingOverflow?_plain (by simp) n] at hsearch
  exact h mid hsearch rest hcomparison

/-- Chains stay within the bound if items do. -/
theorem StaysWithin.chain (h : StaysWithin n reader) (hsound : Sound reader lang)
    (hkeeps : KeepsDepth n lang) {op : Connective} {operator : List Char → Option (List Char)}
    (hoperator : Finds operator op) :
    StaysWithin n (chain op operator reader) := by
  intro cs hsearch rest hread
  obtain ⟨mid, hresumes, hitem⟩ := chain_eq_error hsound hoperator hread
  have hplain : ∀ t : Token, t = .connective op → t ≠ .opening ∧ t ≠ .closing := by
    rintro t rfl
    simp
  rw [hresumes.nestingOverflow?_eq (hkeeps.chain op) hplain] at hsearch
  exact h mid hsearch rest hitem

/-- Conditions stay within the bound if their operands do. -/
theorem StaysWithin.disjunction (hn : n + levels ≤ maxNesting)
    (h : StaysWithin n (Condition.operand (disjunction levels))) :
    StaysWithin n (disjunction (levels + 1)) := by
  have hsound := (sound_disjunction levels).operand
  have hkeeps := keepsDepth_operand levels n hn
  have hnegations := (h.comparison hsound hkeeps).negation
  have hconjunctions := hnegations.chain hsound.comparison.negation hkeeps.comparison.negation
    takeAnd_eq_some_iff
  exact hconjunctions.chain (hsound.comparison.negation.chain takeAnd_eq_some_iff)
    (hkeeps.comparison.negation.chain .all) takeOr_eq_some_iff

end StaysWithin

/-- The readers do not run out of levels where the search has as many left. -/
theorem staysWithin_disjunction (levels n : Nat) (hn : n + levels = maxNesting) :
    StaysWithin n (disjunction (levels + 1)) := by
  induction levels generalizing n with
  | zero => exact .disjunction (by omega) (.operand fun hlt => by omega)
  | succ levels ih => exact .disjunction (by omega) (.operand fun _ => ih (n + 1) (by omega))

/-! ### More levels than needed -/

/-- Whether the second reader reads whatever the first one reads without running out of levels. -/
def Extends {α : Type} (reader reader' : Reader α) : Prop :=
  ∀ cs, Suffices reader cs → reader' cs = reader cs

section Extends

variable {reader reader' : Reader Expr}

theorem Extends.operand (h : Extends reader reader') :
    Extends (operand reader) (operand reader') := by
  intro cs hsuffices
  rw [Suffices, Condition.operand] at hsuffices
  rw [Condition.operand, Condition.operand]
  split
  · rfl
  rename_i hboundary
  rw [if_neg hboundary] at hsuffices
  split
  · rename_i mid hopening
    simp only [hopening] at hsuffices
    have hinner : Suffices reader mid := by
      intro stop hread
      refine hsuffices stop ?_
      simp only [enclosed, hread]
    rw [enclosed, enclosed, h mid hinner]
  · rfl

theorem Extends.comparison (h : Extends reader reader') :
    Extends (comparison reader) (comparison reader') := by
  intro cs hsuffices
  rw [Suffices, Condition.comparison] at hsuffices
  have hleft : Suffices reader cs := by
    intro stop hread
    exact hsuffices stop (by simp only [hread])
  rw [Condition.comparison, Condition.comparison, h cs hleft]
  split
  · rfl
  rename_i left mid hread
  simp only [hread] at hsuffices
  split
  · rfl
  rename_i op mid' hop
  simp only [hop] at hsuffices
  have hright : Suffices reader mid' := by
    intro stop hread'
    exact hsuffices stop (by simp only [hread'])
  rw [h mid' hright]

theorem Extends.negation (h : Extends reader reader') :
    Extends (negation reader) (negation reader') := by
  intro cs hsuffices
  obtain ⟨count, mid, hnots⟩ : ∃ count mid, takeNots cs.length cs = (count, mid) := ⟨_, _, rfl⟩
  rw [Suffices, Condition.negation, hnots] at hsuffices
  have hcomparison : Suffices reader mid := by
    intro stop hread
    exact hsuffices stop (by simp only [hread])
  simp only [Condition.negation, hnots, h mid hcomparison]

theorem Extends.chain (h : Extends reader reader') (op : Connective)
    (operator : List Char → Option (List Char)) :
    Extends (chain op operator reader) (chain op operator reader') := by
  have hfurther : ∀ bound, Extends (furtherItems operator reader bound)
      (furtherItems operator reader' bound) := by
    intro bound
    induction bound with
    | zero => exact fun _ _ => rfl
    | succ bound ih =>
      intro cs hsuffices
      rw [Suffices, furtherItems] at hsuffices
      rw [furtherItems, furtherItems]
      split
      · rfl
      rename_i mid hop
      simp only [hop] at hsuffices
      have hitem : Suffices reader mid := by
        intro stop hread
        exact hsuffices stop (by simp only [hread])
      rw [h mid hitem]
      split
      · rfl
      rename_i e mid' hread
      simp only [hread] at hsuffices
      have hmore : Suffices (furtherItems operator reader bound) mid' := by
        intro stop hread'
        exact hsuffices stop (by simp only [hread'])
      rw [ih mid' hmore]
  intro cs hsuffices
  rw [Suffices, Condition.chain] at hsuffices
  have hfirst : Suffices reader cs := by
    intro stop hread
    exact hsuffices stop (by simp only [hread])
  rw [Condition.chain, Condition.chain, h cs hfirst]
  split
  · rfl
  rename_i first mid hread
  simp only [hread] at hsuffices
  have hmore : Suffices (furtherItems operator reader mid.length) mid := by
    intro stop hread'
    exact hsuffices stop (by simp only [hread'])
  rw [hfurther mid.length mid hmore]

end Extends

/-- Where levels suffice, more of them change nothing. -/
theorem disjunction_eq_of_le (hsuffices : Suffices (disjunction n) cs) (hn : n ≤ levels) :
    disjunction levels cs = disjunction n cs := by
  have hnext : ∀ n, Extends (disjunction n) (disjunction (n + 1)) := by
    intro n
    induction n with
    | zero => exact fun cs h => absurd rfl (h cs)
    | succ n ih => exact (ih.operand.comparison.negation.chain .all takeAnd).chain .any takeOr
  induction hn with
  | refl => rfl
  | step _ ih =>
    rw [← ih]
    refine hnext _ cs ?_
    rw [Suffices, ih]
    exact hsuffices

/-! ### The search and the readers -/

/-- A text in which parentheses nest too deep is refused at the first that opens a level too
many. -/
theorem compile_eq_error_of_deep {source : String} (hbytes : byteLength source.toList ≤ maxBytes)
    {before after : List Char} (hsource : source.toList = before ++ '(' :: after)
    (hsearch : nestingOverflow? 0 none source.toList = some ('(' :: after)) :
    compile source = .error ⟨source, byteLength before, .tooDeep⟩ := by
  have hblank : source.toList.all isBlank = false := by
    have hopening : isBlank '(' = false := by decide
    simp [hsource, hopening]
  have hread : readAll source.toList = .error ⟨.tooDeep, '(' :: after⟩ := by
    rw [readAll, if_neg (by omega), hblank, if_neg (by simp), hsearch]
  rw [compile, hread]
  simp only [hsource, offsetOf_append]

/-- The search for deep parentheses and the readers agree on what a parenthesis is. A text that the
grammar derives with any number of levels is read if its parentheses nest at most `maxNesting` deep,
and is refused at the first that opens a level too many otherwise; what is in quotes does not count.
In any text that passes the search, the readers never have more than `maxNesting` conditions in
parentheses open at once, so that more levels would change nothing. -/
theorem nesting_agrees :
    (∀ source ts levels e, byteLength source.toList ≤ maxBytes → Tokens source.toList ts →
      Derives levels ts e →
        (NestsWithin maxNesting ts → compile source = .ok ⟨source, e⟩) ∧
        (¬ NestsWithin maxNesting ts → ∃ before after us vs,
          source.toList = before ++ '(' :: after ∧ ts = us ++ .opening :: vs ∧
          Tokens before us ∧ Tokens after vs ∧
          NestsWithin maxNesting us ∧ openAfter us = maxNesting ∧
          compile source = .error ⟨source, byteLength before, .tooDeep⟩)) ∧
    (∀ n quote text written rest, quote = '"' ∨ quote = '\'' → QuotedAs quote text written →
      nestingOverflow? n none (quote :: (written ++ quote :: rest)) =
        nestingOverflow? n none rest) ∧
    (∀ cs, nestingOverflow? 0 none cs = none →
      (∀ n, OpensAtOnce n cs → n ≤ maxNesting) ∧
      ∀ levels, maxNesting < levels → disjunction levels cs = disjunction (maxNesting + 1) cs) := by
  refine ⟨?_, ?_, ?_⟩
  · intro source ts levels e hbytes htokens hderives
    constructor
    · intro hnests
      exact compile_eq_ok_iff.mpr ⟨rfl, hbytes, ts, htokens, hderives.of_nestsWithin hnests⟩
    · intro hdeep
      obtain ⟨before, after, us, vs, hsource, hts, hbefore, hafter, hus, hcount, hsearch⟩ :=
        htokens.nestingOverflow?_eq_some hderives hdeep
      have hcompile := compile_eq_error_of_deep hbytes hsource hsearch
      exact ⟨before, after, us, vs, hsource, hts, hbefore, hafter, hus, hcount, hcompile⟩
  · intro n quote text written rest hquote hwritten
    rw [nestingOverflow?, if_pos hquote]
    exact hwritten.nestingOverflow? (ne_backslash_of_quote hquote) n rest
  · intro cs hsearch
    have hsuffices : Suffices (disjunction (maxNesting + 1)) cs :=
      staysWithin_disjunction maxNesting 0 (Nat.zero_add _) cs hsearch
    constructor
    · rintro n ⟨rest, hread⟩
      -- With more levels the reader would stop for want of levels, though it does not need them.
      refine Nat.le_of_not_lt fun hmore => ?_
      rw [disjunction_eq_of_le hsuffices hmore] at hread
      exact hsuffices rest hread
    · intro levels hlevels
      exact disjunction_eq_of_le hsuffices hlevels

/-- Behind a text in quotes that holds parentheses of its own, the first of 65 parentheses around a
name that opens a level too many is the last one, at byte 73. Where quotes do not match, the readers
go no deeper either. -/
theorem nesting_agrees_deep :
    (∃ source ts e, source = String.ofList ("'(\\'(' = ".toList ++ (List.replicate 65 '(' ++
        'a' :: List.replicate 65 ')')) ∧
      byteLength source.toList ≤ maxBytes ∧ Tokens source.toList ts ∧
      Derives (maxNesting + 2) ts e ∧ ¬ NestsWithin maxNesting ts ∧
      ∃ before us vs, ts = us ++ .opening :: vs ∧ Tokens before us ∧ openAfter us = maxNesting ∧
        compile source = .error ⟨source, byteLength before, .tooDeep⟩ ∧ byteLength before = 73) ∧
    (nestingOverflow? 0 none "((')(\"))((' ((".toList = none ∧
      ∀ n, OpensAtOnce n "((')(\"))((' ((".toList → n ≤ maxNesting) := by
  constructor
  · obtain ⟨source, hsource⟩ : ∃ source, source = String.ofList ("'(\\'(' = ".toList ++
      (List.replicate 65 '(' ++ 'a' :: List.replicate 65 ')')) := ⟨_, rfl⟩
    have hcs := congrArg String.toList hsource
    rw [String.toList_ofList] at hcs
    have hbytes : byteLength source.toList ≤ maxBytes := by
      rw [hcs]
      decide +kernel
    -- Readers with levels enough show that the grammar, which has no limit, derives the text.
    obtain ⟨e, hread⟩ : ∃ e, disjunction (maxNesting + 2) source.toList = .ok (e, []) := by
      have hends : ((disjunction (maxNesting + 2) source.toList).toOption.any
          fun read => read.2.isEmpty) = true := by
        rw [hcs]
        decide +kernel
      match hread : disjunction (maxNesting + 2) source.toList with
      | .error stop => simp [hread, Except.toOption] at hends
      | .ok (e, rest) => exact ⟨e, by simpa [hread, Except.toOption] using hends⟩
    obtain ⟨ts, hderives, htaken⟩ := sound_disjunction _ _ _ _ hread
    have htokens : Tokens source.toList ts := ⟨[], htaken, rfl⟩
    -- The search finds the parenthesis after the first 73 characters, each of which is one byte.
    have hsearch : nestingOverflow? 0 none source.toList =
        some ('(' :: 'a' :: List.replicate 65 ')') := by
      rw [hcs]
      decide +kernel
    have hcompile := @compile_eq_error_of_deep source hbytes
      ("'(\\'(' = ".toList ++ List.replicate 64 '(') _ hcs hsearch
    have hlength : byteLength ("'(\\'(' = ".toList ++ List.replicate 64 '(') = 73 := by decide +kernel
    obtain ⟨hfits, hdeep⟩ := nesting_agrees.1 source ts _ e hbytes htokens hderives
    have hnot : ¬ NestsWithin maxNesting ts := by
      intro hnests
      have hok := hfits hnests
      rw [hcompile] at hok
      cases hok
    obtain ⟨before, after, us, vs, -, hts, hbefore, -, -, hcount, herror⟩ := hdeep hnot
    refine ⟨source, ts, e, hsource, hbytes, htokens, hderives, hnot, before, us, vs, hts, hbefore,
      hcount, herror, ?_⟩
    rw [hcompile] at herror
    have hoffset := congrArg Fault.offset (Except.error.inj herror)
    exact hoffset.symm.trans hlength
  · have hsearch : nestingOverflow? 0 none "((')(\"))((' ((".toList = none := by decide
    exact ⟨hsearch, (nesting_agrees.2.2 _ hsearch).1⟩

end Phrasebook.Condition

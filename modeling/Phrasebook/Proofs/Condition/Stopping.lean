import Phrasebook.Proofs.Condition.Reading

/-!
# Where readers stop

Each reader of a rule of the grammar stops where the reader of the rule below it stops: at the front
of the text, or further on, behind something complete and an operator. So what is to be proved of
every stop is proved of operands, and goes up the rules by one lemma for each.

* `Resumes lang isOperator cs mid`: `mid` is `cs`, or follows a sentence of `lang` and an operator;
* `enclosed_eq_error`, `operand_eq_error`: how operands are refused;
* `comparison_eq_error`, `negation_eq_error`, `chain_eq_error`: where the readers above
  them stop.
-/

namespace Phrasebook.Condition

open Text

variable {cs : List Char} {ts us : List Token} {e e' : Expr} {stop : Stop} {lang : Language}
  {reader : Reader Expr} {op : Connective} {operator : List Char → Option (List Char)}

/-- Where an operand is read within `cs`: at its front, or behind a sentence and an operator. -/
inductive Resumes (lang : Language) (isOperator : Token → Prop) (cs : List Char) :
    List Char → Prop where
  /-- The first operand. -/
  | first : Resumes lang isOperator cs cs
  /-- An operand after an operator. -/
  | later {ts : List Token} {e : Expr} {t : Token} {mid : List Char} (hderives : lang ts e)
    (ht : isOperator t) (htaken : Taken cs (ts ++ [t]) mid) : Resumes lang isOperator cs mid

/-! ### Operands -/

/-- A condition in parentheses is refused for what stands inside, or where it should be closed. -/
theorem enclosed_eq_error (h : enclosed reader cs = .error stop) :
    reader cs = .error stop ∨ ∃ e rest, reader cs = .ok (e, rest) ∧ stop.rest = skipBlanks rest ∧
      (stop.reason = .unbalanced ∧ stop.rest = [] ∨ stop.reason = .unknownToken) := by
  rw [enclosed] at h
  split at h
  · rename_i stop' hinner
    cases h
    exact Or.inl hinner
  · rename_i e rest hinner
    refine Or.inr ⟨e, rest, hinner, ?_⟩
    split at h
    · cases h
    · rename_i hend
      cases h
      exact ⟨hend.symm, Or.inl ⟨rfl, rfl⟩⟩
    · cases h
      exact ⟨rfl, Or.inr rfl⟩

/-- An operand is refused where it should start, or as a condition in parentheses. -/
theorem operand_eq_error (h : operand reader cs = .error stop) :
    (stop.rest = skipBlanks cs ∧ (stop.reason = .missingOperand ∨ stop.reason = .unknownToken)) ∨
      ∃ mid, TokenAt cs .opening mid ∧ enclosed reader mid = .error stop := by
  rw [operand] at h
  split at h
  · cases h
    exact Or.inl ⟨rfl, Or.inl rfl⟩
  split at h
  · rename_i mid hopening
    exact Or.inr ⟨mid, tokenAt_opening_iff.mpr hopening, h⟩
  split at h
  · cases h
  · cases h
    exact Or.inl ⟨rfl, Or.inr rfl⟩

/-! ### Operators -/

/-- A comparison stops at one of its operands. -/
theorem comparison_eq_error (hsound : Sound reader lang)
    (h : comparison reader cs = .error stop) :
    ∃ mid, Resumes lang IsComparator cs mid ∧ reader mid = .error stop := by
  rw [comparison] at h
  split at h
  · rename_i stop' hleft
    cases h
    exact ⟨cs, .first, hleft⟩
  rename_i left mid hleft
  split at h
  · cases h
  rename_i op mid' hop
  split at h
  · rename_i stop' hright
    cases h
    -- The left operand was read, so it is a sentence in front of the comparator.
    obtain ⟨ts, hderives, htaken⟩ := hsound _ _ _ hleft
    have hfront := htaken.append (.cons (takeComparator_eq_some_iff.mp hop) .nil)
    exact ⟨mid', .later hderives ⟨op, rfl⟩ hfront, hright⟩
  · cases h

/-- Negations stop where what they negate does. -/
theorem negation_eq_error (h : negation reader cs = .error stop) :
    ∃ count mid, Taken cs (List.replicate count .negation) mid ∧ reader mid = .error stop := by
  rw [negation] at h
  obtain ⟨count, mid, hnots⟩ : ∃ count mid, takeNots cs.length cs = (count, mid) := ⟨_, _, rfl⟩
  rw [hnots] at h
  dsimp only at h
  split at h
  · rename_i stop' hcomparison
    cases h
    exact ⟨count, mid, taken_of_takeNots hnots, hcomparison⟩
  · cases h

/-- Further items may be followed by one more. -/
theorem Further.snoc {es : List Expr} (h : Further op lang ts es) (hlast : lang us e) :
    Further op lang (ts ++ .connective op :: us) (es ++ [e]) := by
  induction h with
  | nil =>
    have honly : Further op lang (.connective op :: (us ++ [])) [e] := .cons hlast .nil
    rwa [List.append_nil] at honly
  | cons first _ ih =>
    rw [List.cons_append, List.append_assoc]
    exact .cons first ih

/-- A chain may be followed by one more item. -/
theorem Chain.snoc (h : Chain op lang ts e) (hlast : lang us e') :
    ∃ e'', Chain op lang (ts ++ .connective op :: us) e'' := by
  cases h with
  | single only => exact ⟨_, .several only (Further.nil.snoc hlast) (by simp)⟩
  | several first more hne =>
    rw [List.append_assoc]
    exact ⟨_, .several first (more.snoc hlast) (by simp)⟩

/-- A chain stops at one of its items: behind none, or behind the chain of those before it. -/
theorem chain_eq_error (hsound : Sound reader lang) (hoperator : Finds operator op)
    (h : chain op operator reader cs = .error stop) :
    ∃ mid, Resumes (Chain op lang) (· = .connective op) cs mid ∧ reader mid = .error stop := by
  -- By induction on the bound of further items, with what was read before them as a chain.
  have hfurther : ∀ bound ts e mid, Chain op lang ts e → Taken cs ts mid →
      furtherItems operator reader bound mid = .error stop →
      ∃ mid', Resumes (Chain op lang) (· = .connective op) cs mid' ∧
        reader mid' = .error stop := by
    intro bound
    induction bound with
    | zero =>
      intro ts e mid _ _ hread
      cases hread
    | succ bound ih =>
      intro ts e mid hchain htaken hread
      rw [furtherItems] at hread
      split at hread
      · cases hread
      rename_i mid' hop
      have hconnective := hoperator.mp hop
      split at hread
      · rename_i stop' hitem
        cases hread
        exact ⟨mid', .later hchain rfl (htaken.append (.cons hconnective .nil)), hitem⟩
      rename_i e' mid'' hitem
      split at hread
      · rename_i stop' hmore
        cases hread
        -- The item was read, so the chain in front of the stop is longer by it.
        obtain ⟨us, hderives, hitemTaken⟩ := hsound _ _ _ hitem
        obtain ⟨e'', hlonger⟩ := hchain.snoc hderives
        exact ih _ e'' mid'' hlonger (htaken.append (.cons hconnective hitemTaken)) hmore
      · cases hread
  rw [chain] at h
  split at h
  · rename_i stop' hfirst
    cases h
    exact ⟨cs, .first, hfirst⟩
  rename_i first mid hfirst
  split at h
  · rename_i stop' hmore
    cases h
    obtain ⟨ts, hderives, htaken⟩ := hsound _ _ _ hfirst
    exact hfurther _ ts first mid (.single hderives) htaken hmore
  · cases h

end Phrasebook.Condition

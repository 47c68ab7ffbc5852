import Phrasebook.Proofs.Condition.Grammar

/-!
# Parentheses of tokens

The parentheses of a condition are counted along its tokens: an opening one adds one, a closing one
takes one away. Whatever the grammar derives is balanced, so behind any part of a condition as many
parentheses are open as in front of it, and a part nests no deeper than the whole. That is why the
number of open parentheses alone tells how many levels a derivation needs.

* `openAfter ts`: how many parentheses are open after the tokens `ts`;
* `NestsWithin n ts`: nowhere are more than `n` open;
* `allBalanced_derives`: the parentheses of a condition are balanced;
* `Derives.of_nestsWithin`: as many levels suffice for a derivation as its parentheses need;
* `exists_opening_of_not_nestsWithin`: the first parenthesis that opens a level too many.
-/

namespace Phrasebook.Condition

variable {t : Token} {ts us : List Token} {e : Expr} {levels n : Nat}

/-! ### Open parentheses -/

/-- What a token adds to the number of open parentheses. -/
def Token.rise : Token → Int
  | .opening => 1
  | .closing => -1
  | _ => 0

/-- How many parentheses are open after the tokens. -/
def openAfter : List Token → Int
  | [] => 0
  | t :: ts => t.rise + openAfter ts

/-- Whether nowhere in the tokens more than `n` parentheses are open. -/
def NestsWithin (n : Nat) (ts : List Token) : Prop :=
  ∀ us, us <+: ts → openAfter us ≤ n

/-- Whether every parenthesis is closed, and none before it is opened. -/
structure Balanced (ts : List Token) : Prop where
  /-- None is open at the end. -/
  closed : openAfter ts = 0
  /-- Up to any place, no more close than open. -/
  upTo : ∀ us, us <+: ts → 0 ≤ openAfter us

@[simp]
theorem openAfter_nil : openAfter [] = 0 := rfl

@[simp]
theorem openAfter_cons (t : Token) (ts : List Token) :
    openAfter (t :: ts) = t.rise + openAfter ts := rfl

@[simp]
theorem openAfter_append (ts us : List Token) :
    openAfter (ts ++ us) = openAfter ts + openAfter us := by
  induction ts with
  | nil => simp
  | cons t ts ih =>
    rw [List.cons_append, openAfter_cons, openAfter_cons, ih]
    omega

@[simp]
theorem rise_opening : Token.opening.rise = 1 := rfl

@[simp]
theorem rise_closing : Token.closing.rise = -1 := rfl

/-- Only parentheses change the number of open ones. -/
theorem rise_eq_zero (hopening : t ≠ .opening) (hclosing : t ≠ .closing) :
    t.rise = 0 := by
  cases t with
  | opening => exact absurd rfl hopening
  | closing => exact absurd rfl hclosing
  | _ => rfl

/-- What is in front of a place in two lists of tokens is in front of a place in the first, or it
is the first and what is in front of a place in the second. -/
theorem front_append_cases {vs : List Token} (h : vs <+: ts ++ us) :
    vs <+: ts ∨ ∃ ws, vs = ts ++ ws ∧ ws <+: us := by
  rcases List.prefix_or_prefix_of_prefix h (List.prefix_append ts us) with hfirst | ⟨ws, rfl⟩
  · exact Or.inl hfirst
  · exact Or.inr ⟨ws, rfl, (List.prefix_append_right_inj ts).mp h⟩

/-! ### Balanced tokens -/

/-- No tokens are balanced. -/
theorem balanced_nil : Balanced [] where
  closed := rfl
  upTo us hus := by simp [List.prefix_nil.mp hus]

/-- A token other than a parenthesis is balanced. -/
theorem balanced_singleton (hopening : t ≠ .opening) (hclosing : t ≠ .closing) :
    Balanced [t] where
  closed := by simp [rise_eq_zero hopening hclosing]
  upTo us hus := by
    rcases List.prefix_cons_iff.mp hus with rfl | ⟨vs, rfl, hvs⟩
    · simp
    · simp [List.prefix_nil.mp hvs, rise_eq_zero hopening hclosing]

/-- Balanced tokens one after another are balanced. -/
theorem Balanced.append (hts : Balanced ts) (hus : Balanced us) :
    Balanced (ts ++ us) where
  closed := by simp [hts.closed, hus.closed]
  upTo vs hvs := by
    rcases front_append_cases hvs with hfirst | ⟨ws, rfl, hws⟩
    · exact hts.upTo vs hfirst
    · simpa [hts.closed] using hus.upTo ws hws

/-- Balanced tokens in parentheses are balanced. -/
theorem Balanced.enclosed (h : Balanced ts) :
    Balanced (.opening :: (ts ++ [.closing])) where
  closed := by simp [h.closed]
  upTo us hus := by
    rcases List.prefix_cons_iff.mp hus with rfl | ⟨vs, rfl, hvs⟩
    · simp
    rcases List.prefix_concat_iff.mp hvs with rfl | hvs
    · simp [h.closed]
    · have hinside := h.upTo vs hvs
      rw [openAfter_cons, rise_opening]
      omega

/-- Whether all derivations of a language are balanced. -/
def AllBalanced (lang : Language) : Prop :=
  ∀ ts e, lang ts e → Balanced ts

section AllBalanced

variable {lang : Language}

theorem AllBalanced.operand (h : AllBalanced lang) : AllBalanced (Operand lang) := by
  intro ts e hderives
  cases hderives with
  | atom hatom => exact balanced_singleton (by rintro rfl; cases hatom) (by rintro rfl; cases hatom)
  | enclosed inner => exact (h _ _ inner).enclosed

theorem AllBalanced.comparison (h : AllBalanced lang) : AllBalanced (Comparison lang) := by
  intro ts e hderives
  cases hderives with
  | single only => exact h _ _ only
  | @compared ts us op left right hleft hright =>
    have hop : Balanced [.comparator op] := balanced_singleton (by simp) (by simp)
    exact (h _ _ hleft).append (hop.append (h _ _ hright))

theorem AllBalanced.negation (h : AllBalanced lang) : AllBalanced (Negation lang) := by
  have hnot : Balanced [.negation] := balanced_singleton (by simp) (by simp)
  intro ts e hderives
  induction hderives with
  | plain only => exact h _ _ only
  | negated _ ih => exact hnot.append ih

theorem AllBalanced.chain (h : AllBalanced lang) (op : Connective) :
    AllBalanced (Chain op lang) := by
  have hop : Balanced [.connective op] := balanced_singleton (by simp) (by simp)
  have hfurther : ∀ ts es, Further op lang ts es → Balanced ts := by
    intro ts es hderives
    induction hderives with
    | nil => exact balanced_nil
    | cons first _ ih => exact hop.append ((h _ _ first).append ih)
  intro ts e hderives
  cases hderives with
  | single only => exact h _ _ only
  | several first more => exact (h _ _ first).append (hfurther _ _ more)

end AllBalanced

/-- The parentheses of a condition are balanced. -/
theorem allBalanced_derives (levels : Nat) : AllBalanced (Derives levels) := by
  induction levels with
  | zero =>
    intro ts e hderives
    cases hderives
  | succ levels ih => exact (ih.operand.comparison.negation.chain .all).chain .any

/-! ### The levels that a derivation needs -/

/-- What nests within a bound does so up to any place. -/
theorem NestsWithin.front (h : NestsWithin n ts) (hfront : us <+: ts) :
    NestsWithin n us :=
  fun vs hvs => h vs (hvs.trans hfront)

/-- What stands behind balanced tokens nests within the bound of the whole. -/
theorem NestsWithin.back (h : NestsWithin n (ts ++ us)) (hts : Balanced ts) :
    NestsWithin n us := by
  intro vs hvs
  have hwhole := h (ts ++ vs) ((List.prefix_append_right_inj ts).mpr hvs)
  simpa [hts.closed] using hwhole

/-- What stands behind a token other than a parenthesis nests within the bound of the whole. -/
theorem NestsWithin.tail (h : NestsWithin n (t :: ts)) (ht : Balanced [t]) :
    NestsWithin n ts :=
  @NestsWithin.back [t] ts n h ht

/-- What stands in parentheses nests one level less deep. -/
theorem NestsWithin.of_enclosed (h : NestsWithin n (.opening :: (ts ++ us))) :
    ∃ m, n = m + 1 ∧ NestsWithin m ts := by
  have hfirst := h [.opening] (by simp)
  simp only [openAfter_cons, rise_opening, openAfter_nil] at hfirst
  refine ⟨n - 1, by omega, ?_⟩
  intro vs hvs
  have hfront : .opening :: vs <+: .opening :: (ts ++ us) :=
    List.cons_prefix_cons.mpr ⟨rfl, hvs.trans (List.prefix_append ts us)⟩
  have hwhole := h _ hfront
  rw [openAfter_cons, rise_opening] at hwhole
  omega

/-- Whether derivations of `lang` that nest within `n` are derivations of `lang'`. -/
def FitsWithin (n : Nat) (lang lang' : Language) : Prop :=
  ∀ ts e, lang ts e → NestsWithin n ts → lang' ts e

section FitsWithin

variable {lang lang' : Language}

/-- Operands fit if conditions in parentheses do, which nest one level less deep. -/
theorem FitsWithin.operand (h : ∀ m, n = m + 1 → FitsWithin m lang lang') :
    FitsWithin n (Operand lang) (Operand lang') := by
  intro ts e hderives hnests
  cases hderives with
  | atom hatom => exact .atom hatom
  | enclosed inner =>
    obtain ⟨m, hm, hinside⟩ := hnests.of_enclosed
    exact .enclosed (h m hm _ _ inner hinside)

theorem FitsWithin.comparison (h : FitsWithin n lang lang') (hbalanced : AllBalanced lang) :
    FitsWithin n (Comparison lang) (Comparison lang') := by
  intro ts e hderives hnests
  cases hderives with
  | single only => exact .single (h _ _ only hnests)
  | @compared ts us op left right hleft hright =>
    have hop : Balanced [.comparator op] := balanced_singleton (by simp) (by simp)
    have hback : NestsWithin n us := (hnests.back (hbalanced _ _ hleft)).tail hop
    have hfront : NestsWithin n ts := hnests.front (List.prefix_append ts _)
    exact .compared (h _ _ hleft hfront) (h _ _ hright hback)

theorem FitsWithin.negation (h : FitsWithin n lang lang') :
    FitsWithin n (Negation lang) (Negation lang') := by
  have hnot : Balanced [.negation] := balanced_singleton (by simp) (by simp)
  intro ts e hderives hnests
  induction hderives with
  | plain only => exact .plain (h _ _ only hnests)
  | negated _ ih => exact .negated (ih (hnests.tail hnot))

theorem FitsWithin.chain (h : FitsWithin n lang lang') (hbalanced : AllBalanced lang)
    (op : Connective) :
    FitsWithin n (Chain op lang) (Chain op lang') := by
  have hop : Balanced [.connective op] := balanced_singleton (by simp) (by simp)
  have hfurther : ∀ ts es, Further op lang ts es → NestsWithin n ts → Further op lang' ts es := by
    intro ts es hderives hnests
    induction hderives with
    | nil => exact .nil
    | @cons ts us e es first more ih =>
      have hitems : NestsWithin n (ts ++ us) := hnests.tail hop
      have hfront : NestsWithin n ts := hitems.front (List.prefix_append ts us)
      exact .cons (h _ _ first hfront) (ih (hitems.back (hbalanced _ _ first)))
  intro ts e hderives hnests
  cases hderives with
  | single only => exact .single (h _ _ only hnests)
  | @several ts us e es first more hne =>
    have hfront : NestsWithin n ts := hnests.front (List.prefix_append ts us)
    exact .several (h _ _ first hfront) (hfurther _ _ more (hnests.back (hbalanced _ _ first))) hne

end FitsWithin

/-- A condition whose parentheses nest within `n` is derived with `n + 1` levels. -/
theorem Derives.of_nestsWithin (h : Derives levels ts e) (hnests : NestsWithin n ts) :
    Derives (n + 1) ts e := by
  have hfits : ∀ levels n, FitsWithin n (Derives levels) (Derives (n + 1)) := by
    intro levels
    induction levels with
    | zero =>
      intro n ts e hderives
      cases hderives
    | succ levels ih =>
      intro n
      have hoperands : FitsWithin n (Operand (Derives levels)) (Operand (Derives n)) := by
        refine .operand ?_
        rintro m rfl
        exact ih m
      have hbalanced := (allBalanced_derives levels).operand.comparison
      exact ((hoperands.comparison (allBalanced_derives levels).operand).negation.chain
        hbalanced.negation .all).chain (hbalanced.negation.chain .all) .any
  exact hfits levels n ts e h hnests

/-- A place up to which tokens nest within a bound, and at which the next one opens a level too
many. -/
theorem exists_opening_of_not_nestsWithin (hus : NestsWithin n us)
    (h : ¬ NestsWithin n (us ++ ts)) :
    ∃ vs ws, us ++ ts = vs ++ .opening :: ws ∧ NestsWithin n vs ∧ openAfter vs = n := by
  -- By induction on the tokens that are left: the next one goes beyond the bound, or it does not.
  induction ts generalizing us with
  | nil =>
    rw [List.append_nil] at h
    exact absurd hus h
  | cons t ts ih =>
    by_cases hnext : openAfter (us ++ [t]) ≤ n
    · have hus' : NestsWithin n (us ++ [t]) := by
        intro vs hvs
        rcases List.prefix_concat_iff.mp hvs with rfl | hvs
        · exact hnext
        · exact hus vs hvs
      rw [List.append_cons] at h ⊢
      exact ih hus' h
    · have hbefore := hus us (List.prefix_refl us)
      rw [openAfter_append, openAfter_cons, openAfter_nil] at hnext
      -- Only an opening parenthesis raises the number, and by one.
      have hopening : t = .opening := by
        cases t with
        | opening => rfl
        | _ => exfalso; simp only [Token.rise] at hnext; omega
      subst hopening
      rw [rise_opening] at hnext
      exact ⟨us, ts, rfl, hus, by omega⟩

end Phrasebook.Condition

import Phrasebook.Proofs.Condition.Grammar
import Phrasebook.Proofs.Condition.Recognition

/-!
# Readers and languages

Each reader of a rule of the grammar is made from the reader of the rule below it, just as the
languages are. The module carries two properties up these rules:

* `Sound reader lang`: whatever the reader reads, the tokens it takes derive the tree it returns;
* `Complete reader lang goesOn`: tokens that derive a tree are read as that tree, unless a token
  follows with which the reader goes on.
-/

namespace Phrasebook.Condition

open Text

variable {cs mid rest : List Char} {t : Token} {ts us : List Token}

/-! ### Tokens off the front of a text -/

/-- No token is spelled by nothing. -/
theorem Spelled.ne_nil {text : List Char} (h : Spelled t text) :
    text ≠ [] := by
  rintro rfl
  obtain ⟨t', rest', hread, -⟩ := h.covers []
  cases hread

/-- A text goes on with one token at most. -/
theorem TokenAt.unique {t' : Token} {rest' : List Char} (h : TokenAt cs t rest)
    (h' : TokenAt cs t' rest') :
    t = t' ∧ rest = rest' := by
  rw [tokenAt_iff] at h h'
  rw [h] at h'
  cases h'
  exact ⟨rfl, rfl⟩

/-- A token takes at least one character. -/
theorem TokenAt.length_lt (h : TokenAt cs t rest) :
    rest.length < cs.length := by
  obtain ⟨text, hcs, hspelled, -⟩ := h
  have hskip : (skipBlanks cs).length ≤ cs.length := (List.dropWhile_sublist isBlank).length_le
  have htext := List.length_pos_iff.mpr hspelled.ne_nil
  rw [hcs, List.length_append] at hskip
  omega

/-- Tokens are taken one after another. -/
theorem Taken.append (h : Taken cs ts mid) (h' : Taken mid us rest) :
    Taken cs (ts ++ us) rest := by
  induction h with
  | nil => exact h'
  | cons htoken _ ih => exact .cons htoken (ih h')

/-- Of tokens that are taken, the first ones are taken first. -/
theorem Taken.exists_mid (h : Taken cs (ts ++ us) rest) :
    ∃ mid, Taken cs ts mid ∧ Taken mid us rest := by
  induction ts generalizing cs with
  | nil => exact ⟨cs, .nil, h⟩
  | cons t ts ih =>
    cases h with
    | cons htoken more =>
      obtain ⟨mid, hfirst, hlast⟩ := ih more
      exact ⟨mid, .cons htoken hfirst, hlast⟩

/-- Taking tokens never lengthens a text. -/
theorem Taken.length_le (h : Taken cs ts rest) :
    rest.length ≤ cs.length := by
  induction h with
  | nil => exact Nat.le_refl _
  | cons htoken _ ih => exact Nat.le_trans ih (Nat.le_of_lt htoken.length_lt)

/-- Whether no token with the property follows. -/
def Ends (goesOn : Token → Prop) (rest : List Char) : Prop :=
  ∀ t mid, TokenAt rest t mid → ¬ goesOn t

/-- A text ends what goes on otherwise than it does. -/
theorem TokenAt.ends {goesOn : Token → Prop} (h : TokenAt cs t rest) (ht : ¬ goesOn t) :
    Ends goesOn cs := by
  intro t' mid h'
  rw [← (h.unique h').1]
  exact ht

/-- Whatever the reader reads, the tokens it takes derive the tree it returns. -/
def Sound (reader : Reader Expr) (lang : Language) : Prop :=
  ∀ cs e rest, reader cs = .ok (e, rest) → ∃ ts, lang ts e ∧ Taken cs ts rest

/-- Tokens that derive a tree are read as that tree, unless a token follows with which the reader
goes on. -/
def Complete (reader : Reader Expr) (lang : Language) (goesOn : Token → Prop) : Prop :=
  ∀ cs ts e rest, lang ts e → Taken cs ts rest → Ends goesOn rest → reader cs = .ok (e, rest)

variable {reader : Reader Expr} {lang : Language} {goesOn : Token → Prop}

/-! ### Operands -/

/-- Operands are read soundly if conditions are. -/
theorem Sound.operand (h : Sound reader lang) :
    Sound (operand reader) (Operand lang) := by
  intro cs e rest hread
  rcases operand_eq_ok_iff.mp hread with ⟨t, htoken, hatom⟩ | ⟨mid, hopening, hinner⟩
  · exact ⟨[t], .atom hatom, .cons htoken .nil⟩
  · obtain ⟨mid', hinner, hclosing⟩ := enclosed_eq_ok_iff.mp hinner
    obtain ⟨ts, hderives, htaken⟩ := h mid e mid' hinner
    exact ⟨_, .enclosed hderives, .cons hopening (htaken.append (.cons hclosing .nil))⟩

/-- Every operand is read if every condition before a closing parenthesis is. -/
theorem Complete.operand (h : Complete reader lang goesOn) (hclosing : ¬ goesOn .closing) :
    Complete (operand reader) (Operand lang) fun _ => False := by
  intro cs ts e rest hderives htaken _
  refine operand_eq_ok_iff.mpr ?_
  cases hderives with
  | atom hatom =>
    cases htaken with
    | cons htoken more =>
      cases more
      exact Or.inl ⟨_, htoken, hatom⟩
  | enclosed inner =>
    cases htaken with
    | cons hopening more =>
      obtain ⟨mid, hinner, hlast⟩ := more.exists_mid
      cases hlast with
      | cons htoken more =>
        cases more
        -- The condition inside ends before the parenthesis that closes it.
        have hread := h _ _ _ _ inner hinner (htoken.ends hclosing)
        exact Or.inr ⟨_, hopening, enclosed_eq_ok_iff.mpr ⟨mid, hread, htoken⟩⟩

/-! ### Comparisons -/

/-- Whether a token is a comparator. -/
def IsComparator (t : Token) : Prop :=
  ∃ op, t = .comparator op

/-- Comparisons are read soundly if operands are. -/
theorem Sound.comparison (h : Sound reader lang) :
    Sound (comparison reader) (Comparison lang) := by
  intro cs e rest hread
  rw [Condition.comparison] at hread
  split at hread
  · cases hread
  · rename_i left mid hleft
    obtain ⟨ts, hderives, htaken⟩ := h _ _ _ hleft
    -- The operand stands alone unless a comparator follows it.
    split at hread
    · cases hread
      exact ⟨ts, .single hderives, htaken⟩
    · rename_i op mid' hop
      split at hread
      · cases hread
      · rename_i right rest' hright
        cases hread
        obtain ⟨us, hderives', htaken'⟩ := h _ _ _ hright
        have htoken := takeComparator_eq_some_iff.mp hop
        exact ⟨_, .compared hderives hderives', htaken.append (.cons htoken htaken')⟩

/-- Every comparison is read if every operand is. -/
theorem Complete.comparison (h : Complete reader lang fun _ => False) :
    Complete (comparison reader) (Comparison lang) IsComparator := by
  intro cs ts e rest hderives htaken hends
  -- An operand ends wherever its tokens do.
  have hfree : ∀ rest : List Char, Ends (fun _ => False) rest := fun _ _ _ _ => id
  rw [Condition.comparison]
  cases hderives with
  | single only =>
    rw [h _ _ _ _ only htaken (hfree rest)]
    dsimp only
    -- No comparator follows, or the reader would go on with it.
    cases hop : takeComparator rest with
    | none => rfl
    | some taken => exact absurd ⟨_, rfl⟩ (hends _ _ (takeComparator_eq_some_iff.mp hop))
  | compared hleft hright =>
    obtain ⟨mid, htaken, hlast⟩ := htaken.exists_mid
    cases hlast with
    | cons htoken more =>
      rw [h _ _ _ _ hleft htaken (hfree mid)]
      dsimp only
      rw [takeComparator_eq_some_iff.mpr htoken]
      dsimp only
      rw [h _ _ _ _ hright more (hfree rest)]

/-! ### Negations -/

/-- Whether no derivation begins with a negation. -/
def Unnegated (lang : Language) : Prop :=
  ∀ ts e, lang ts e → ∃ t us, ts = t :: us ∧ t ≠ .negation

/-- No comparison begins with a negation. -/
theorem unnegated_comparison (lang : Language) :
    Unnegated (Comparison (Operand lang)) := by
  have hoperand : Unnegated (Operand lang) := by
    intro ts e hderives
    cases hderives with
    | @atom t e hatom =>
      refine ⟨t, [], rfl, ?_⟩
      rintro rfl
      cases hatom
    | enclosed inner => exact ⟨_, _, rfl, by simp⟩
  -- A comparison begins with its first operand.
  intro ts e hderives
  cases hderives with
  | single only => exact hoperand _ _ only
  | compared hleft hright =>
    obtain ⟨t, us, rfl, ht⟩ := hoperand _ _ hleft
    exact ⟨t, _, rfl, ht⟩

/-- Negations that are counted are tokens of the text. -/
theorem taken_of_takeNots {bound count : Nat} (h : takeNots bound cs = (count, rest)) :
    Taken cs (List.replicate count .negation) rest := by
  -- By induction on the bound, which is the recursion of the count.
  induction bound generalizing cs count with
  | zero =>
    cases h
    exact .nil
  | succ bound ih =>
    rw [takeNots] at h
    split at h
    · cases h
      exact .nil
    · rename_i mid hnot
      obtain ⟨count', rest', hmore⟩ : ∃ count' rest', takeNots bound mid = (count', rest') :=
        ⟨_, _, rfl⟩
      rw [hmore] at h
      cases h
      exact .cons (takeNot_eq_some_iff.mp hnot) (ih hmore)

/-- Counted negations stand before what they negate. -/
theorem Negation.replicate {e : Expr} (h : lang ts e) (count : Nat) :
    Negation lang (List.replicate count .negation ++ ts) (negations count e) := by
  induction count with
  | zero => exact .plain h
  | succ count ih => exact .negated ih

/-- Negations are read soundly if comparisons are. -/
theorem Sound.negation (h : Sound reader lang) :
    Sound (negation reader) (Negation lang) := by
  intro cs e rest hread
  rw [Condition.negation] at hread
  obtain ⟨count, mid, hnots⟩ : ∃ count mid, takeNots cs.length cs = (count, mid) := ⟨_, _, rfl⟩
  rw [hnots] at hread
  dsimp only at hread
  split at hread
  · cases hread
  · rename_i e' rest' hcomparison
    cases hread
    obtain ⟨ts, hderives, htaken⟩ := h _ _ _ hcomparison
    exact ⟨_, .replicate hderives count, (taken_of_takeNots hnots).append htaken⟩

/-- All negations before a comparison are counted. -/
theorem Negation.exists_takeNots (hstart : Unnegated lang) {e : Expr} (h : Negation lang ts e)
    (htaken : Taken cs ts rest) {bound : Nat} (hbound : cs.length ≤ bound) :
    ∃ count mid us e', takeNots bound cs = (count, mid) ∧ lang us e' ∧ Taken mid us rest ∧
      e = negations count e' := by
  -- By induction on the derivation: each negation takes a token, so the bound lasts.
  induction h generalizing cs bound with
  | plain only =>
    refine ⟨0, cs, _, _, ?_, only, htaken, rfl⟩
    obtain ⟨t, us, rfl, ht⟩ := hstart _ _ only
    cases htaken with
    | cons htoken more =>
      cases bound with
      | zero => rfl
      | succ bound =>
        have hnone : takeNot cs = none := by
          cases hnot : takeNot cs with
          | none => rfl
          | some mid => exact absurd (htoken.unique (takeNot_eq_some_iff.mp hnot)).1 ht
        rw [takeNots, hnone]
  | negated _ ih =>
    cases htaken with
    | @cons _ next _ _ _ htoken more =>
      have hshorter := htoken.length_lt
      cases bound with
      | zero => omega
      | succ bound =>
        have hbound : next.length ≤ bound := by omega
        obtain ⟨count, mid, us, e', hnots, hderives, htaken, rfl⟩ := ih more hbound
        refine ⟨count + 1, mid, us, e', ?_, hderives, htaken, rfl⟩
        rw [takeNots, takeNot_eq_some_iff.mpr htoken]
        dsimp only
        rw [hnots]

/-- Every negation is read if every comparison is. -/
theorem Complete.negation (h : Complete reader lang goesOn) (hstart : Unnegated lang) :
    Complete (negation reader) (Negation lang) goesOn := by
  intro cs ts e rest hderives htaken hends
  obtain ⟨count, mid, us, e', hnots, hderives', htaken', rfl⟩ :=
    hderives.exists_takeNots hstart htaken (Nat.le_refl _)
  rw [Condition.negation, hnots]
  dsimp only
  rw [h _ _ _ _ hderives' htaken' hends]

/-! ### Chains -/

section Chains

variable {op : Connective} {operator : List Char → Option (List Char)}

/-- Whether a reader of an operator finds the token of a connective. -/
def Finds (operator : List Char → Option (List Char)) (op : Connective) : Prop :=
  ∀ {cs rest}, operator cs = some rest ↔ TokenAt cs (.connective op) rest

/-- Further items are read soundly if items are. -/
theorem Sound.furtherItems (h : Sound reader lang) (hoperator : Finds operator op) {bound : Nat}
    {es : List Expr} (hread : furtherItems operator reader bound cs = .ok (es, rest)) :
    ∃ ts, Further op lang ts es ∧ Taken cs ts rest := by
  -- By induction on the bound, which is the recursion of the reader.
  induction bound generalizing cs es with
  | zero =>
    cases hread
    exact ⟨[], .nil, .nil⟩
  | succ bound ih =>
    rw [Condition.furtherItems] at hread
    split at hread
    · cases hread
      exact ⟨[], .nil, .nil⟩
    · rename_i mid hop
      split at hread
      · cases hread
      · rename_i e mid' hitem
        obtain ⟨ts, hderives, htaken⟩ := h _ _ _ hitem
        split at hread
        · cases hread
        · rename_i es' rest' hmore
          cases hread
          obtain ⟨us, hfurther, htaken'⟩ := ih hmore
          exact ⟨_, .cons hderives hfurther, .cons (hoperator.mp hop) (htaken.append htaken')⟩

/-- Chains are read soundly if items are. -/
theorem Sound.chain (h : Sound reader lang) (hoperator : Finds operator op) :
    Sound (chain op operator reader) (Chain op lang) := by
  intro cs e rest hread
  rw [Condition.chain] at hread
  split at hread
  · cases hread
  · rename_i first mid hfirst
    obtain ⟨ts, hderives, htaken⟩ := h _ _ _ hfirst
    split at hread
    · cases hread
    · rename_i more rest' hmore
      cases hread
      obtain ⟨us, hfurther, htaken'⟩ := h.furtherItems hoperator hmore
      -- Without further items the reader returns the tree of the first.
      cases more with
      | nil =>
        cases hfurther
        cases htaken'
        exact ⟨ts, .single hderives, htaken⟩
      | cons second more =>
        exact ⟨ts ++ us, .several hderives hfurther (by simp), htaken.append htaken'⟩

/-- Where further items are, an item before them ends. -/
theorem Further.ends {es : List Expr} (h : Further op lang ts es) (htaken : Taken cs ts rest)
    (hop : ¬ goesOn (.connective op)) (hends : Ends goesOn rest) :
    Ends goesOn cs := by
  cases h with
  | nil =>
    cases htaken
    exact hends
  | cons first more =>
    cases htaken with
    | cons htoken more => exact htoken.ends hop

/-- All further items are read if every item is. -/
theorem Complete.furtherItems (h : Complete reader lang goesOn) (hoperator : Finds operator op)
    (hop : ¬ goesOn (.connective op)) {es : List Expr} (hderives : Further op lang ts es)
    (htaken : Taken cs ts rest) (hends : Ends (fun t => goesOn t ∨ t = .connective op) rest)
    {bound : Nat} (hbound : cs.length ≤ bound) :
    furtherItems operator reader bound cs = .ok (es, rest) := by
  have hitems : Ends goesOn rest := fun t mid htoken hgoes => hends t mid htoken (Or.inl hgoes)
  -- By induction on the derivation: each item takes a token, so the bound lasts.
  induction hderives generalizing cs bound with
  | nil =>
    cases htaken
    cases bound with
    | zero => rfl
    | succ bound =>
      have hnone : operator rest = none := by
        cases hread : operator rest with
        | none => rfl
        | some mid => exact absurd (Or.inr rfl) (hends _ _ (hoperator.mp hread))
      rw [Condition.furtherItems, hnone]
  | cons first more ih =>
    cases htaken with
    | cons htoken hlast =>
      have hshorter := htoken.length_lt
      obtain ⟨mid, hfirst, hmore⟩ := hlast.exists_mid
      cases bound with
      | zero => omega
      | succ bound =>
        have hitem := h _ _ _ _ first hfirst (more.ends hmore hop hitems)
        have hlength : mid.length ≤ bound := by
          have hle := hfirst.length_le
          omega
        rw [Condition.furtherItems, hoperator.mpr htoken]
        dsimp only
        rw [hitem]
        dsimp only
        rw [ih hmore hlength]

/-- Every chain is read if every item is. -/
theorem Complete.chain (h : Complete reader lang goesOn) (hoperator : Finds operator op)
    (hop : ¬ goesOn (.connective op)) :
    Complete (chain op operator reader) (Chain op lang)
      (fun t => goesOn t ∨ t = .connective op) := by
  intro cs ts e rest hderives htaken hends
  have hitems : Ends goesOn rest := fun t mid htoken hgoes => hends t mid htoken (Or.inl hgoes)
  rw [Condition.chain]
  cases hderives with
  -- After a single item no connective follows, so no further items are read.
  | single only =>
    rw [h _ _ _ _ only htaken hitems]
    dsimp only
    rw [h.furtherItems hoperator hop .nil .nil hends (Nat.le_refl _)]
    rfl
  | several first more hne =>
    obtain ⟨mid, hfirst, hmore⟩ := htaken.exists_mid
    rw [h _ _ _ _ first hfirst (more.ends hmore hop hitems)]
    dsimp only
    rw [h.furtherItems hoperator hop more hmore hends (Nat.le_refl _)]
    dsimp only
    rw [connected]
    exact hne

end Chains

/-! ### Conditions -/

/-- Whatever is read as a condition is derived as that condition. -/
theorem sound_disjunction (levels : Nat) :
    Sound (disjunction levels) (Derives levels) := by
  induction levels with
  | zero =>
    intro cs e rest hread
    cases hread
  | succ levels ih =>
    exact ((ih.operand.comparison.negation).chain takeAnd_eq_some_iff).chain takeOr_eq_some_iff

/-- Whether a condition may go on with a token. -/
def IsInfix (t : Token) : Prop :=
  (IsComparator t ∨ t = .connective .all) ∨ t = .connective .any

/-- Every condition that is derived is read. -/
theorem complete_disjunction (levels : Nat) :
    Complete (disjunction levels) (Derives levels) IsInfix := by
  induction levels with
  | zero =>
    intro cs ts e rest hderives
    cases hderives
  | succ levels ih =>
    -- One level of parentheses is one round through the five rules.
    have hclosing : ¬ IsInfix .closing := by simp [IsInfix, IsComparator]
    have hcomparisons := (ih.operand hclosing).comparison.negation (unnegated_comparison _)
    refine Complete.chain ?_ takeOr_eq_some_iff (by simp [IsComparator])
    exact Complete.chain hcomparisons takeAnd_eq_some_iff (by simp [IsComparator])

end Phrasebook.Condition

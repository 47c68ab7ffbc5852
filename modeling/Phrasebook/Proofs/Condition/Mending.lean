import Phrasebook.Proofs.Condition.Cutting
import Phrasebook.Proofs.Condition.Stopping

/-!
# Faults are where a text goes wrong

The fault of a text is reported at a position, which says that nothing is wrong in front of it: what
stands there can still become a condition. A reader stops in front of an
operand that is missing or unknown, or in front of what should be a closing parenthesis. So a name
where an operand is missing, and then a closing parenthesis for each that is open, make a condition
of the tokens that were taken. That is so for the smallest readers, and every rule of the grammar
hands it up to the next, because the tokens in front of the place stay what they are when something
else follows.

A reader that comes to the end of a condition while the text goes on has read a condition in front
of that place already.

* `ending named k`: a text of a name, if one is asked for, and `k` closing parentheses;
* `Mendable sentence n cs stop`: what was read before `stop` can be completed with such a text;
* `mends_disjunction`: whatever is refused while a condition is read is mendable;
* `fault_at_first_error`: the text in front of a fault can be completed.
-/

namespace Phrasebook.Condition

open Text

variable {cs mid rest : List Char} {t : Token} {ts us : List Token}

/-! ### Endings -/

/-- The tokens that complete a condition: a name where an operand is missing, and closing
parentheses. -/
def completion (named : Bool) (k : Nat) : List Token :=
  (if named then [.param "a"] else []) ++ List.replicate k .closing

/-- The text of those tokens after a blank. -/
def ending (named : Bool) (k : Nat) : List Char :=
  ' ' :: ((if named then ['a'] else []) ++ List.replicate k ')')

/-- A closing parenthesis more. -/
theorem completion_succ (named : Bool) (k : Nat) :
    completion named (k + 1) = completion named k ++ [.closing] := by
  rw [completion, completion, List.replicate_succ', List.append_assoc]

/-- An ending has a byte for the blank, one for the name and one for each parenthesis. -/
theorem byteLength_ending_le (named : Bool) (k : Nat) :
    byteLength (ending named k) ≤ k + 2 := by
  have hclosing : byteLength (List.replicate k ')') = k := by
    induction k with
    | zero => rfl
    | succ k ih =>
      rw [List.replicate_succ', byteLength_append, ih]
      rfl
  have hfront : byteLength (' ' :: if named then ['a'] else []) ≤ 2 := by
    cases named <;> decide
  have hsplit : ending named k = (' ' :: if named then ['a'] else []) ++ List.replicate k ')' := rfl
  rw [hsplit, byteLength_append, hclosing]
  omega

/-- An ending can follow tokens without becoming a part of them. -/
theorem separate_ending (named : Bool) (k : Nat) : Separate (ending named k) where
  apart := stops_cons.mpr (by decide)
  closes := by
    intro c hc
    rw [ending, List.mem_cons, List.mem_append, List.mem_replicate] at hc
    rcases hc with rfl | hc | ⟨-, rfl⟩
    · decide
    · cases named with
      | true =>
        rw [List.mem_singleton.mp hc]
        decide
      | false => cases hc
    · decide

/-- Blanks in front of tokens are no part of them. -/
theorem Tokens.skip {blanks : List Char} (hblanks : ∀ c ∈ blanks, isBlank c = true)
    (h : Tokens cs ts) :
    Tokens (blanks ++ cs) ts := by
  obtain ⟨rest, htaken, hrest⟩ := h
  cases htaken with
  | nil => exact ⟨_, .nil, by rw [skipBlanks_append hblanks, hrest]⟩
  | cons htoken more =>
    rw [tokenAt_iff, ← skipBlanks_append hblanks, ← tokenAt_iff] at htoken
    exact ⟨rest, .cons htoken more, hrest⟩

/-- An ending is spelled as it should be. -/
theorem tokens_ending (named : Bool) (k : Nat) :
    Tokens (ending named k) (completion named k) := by
  have hclosing : ∀ k, Tokens (List.replicate k ')') (List.replicate k .closing) := by
    intro k
    induction k with
    | zero => exact ⟨[], .nil, rfl⟩
    | succ k ih =>
      obtain ⟨rest, htaken, hrest⟩ := ih
      exact ⟨rest, .cons (tokenAt_closing_iff.mpr rfl) htaken, hrest⟩
  refine @Tokens.skip _ _ [' '] (List.forall_mem_singleton.mpr rfl) ?_
  cases named with
  | false => exact hclosing k
  | true =>
    obtain ⟨rest, htaken, hrest⟩ := hclosing k
    refine ⟨rest, .cons (tokenAt_iff.mpr ?_) htaken, hrest⟩
    -- The name ends at the parenthesis or at the end of the text.
    cases k <;> rfl

/-- What an ending makes of a text whose tokens were taken. -/
theorem Taken.tokens_ending (h : Taken cs us mid) (named : Bool) (k : Nat) :
    ∃ before, cs = before ++ skipBlanks mid ∧
      Tokens (before ++ ending named k) (us ++ completion named k) := by
  -- The blanks in front of the place stay, and the ending comes behind them.
  obtain ⟨front, hcs, hcut⟩ := h.continued
  obtain ⟨blanks, hblanks, hmid⟩ := exists_blanks mid
  obtain ⟨rest, hending, hrest⟩ := (Condition.tokens_ending named k).skip hblanks
  refine ⟨front ++ blanks, by rw [List.append_assoc, ← hmid, hcs], rest, ?_, hrest⟩
  rw [List.append_assoc]
  exact (hcut _ ((separate_ending named k).append hblanks)).append hending

/-! ### Mendable stops -/

/-- Whether the tokens derive some tree. -/
def Sentence (lang : Language) (ts : List Token) : Prop :=
  ∃ e, lang ts e

/-- Whether what was read off `cs` before `stop` becomes a sentence by a completion with at most `n`
closing parentheses. -/
structure Mendable (sentence : List Token → Prop) (n : Nat) (cs : List Char) (stop : Stop) :
    Prop where
  /-- The sentence and the place in front of which it is cut. -/
  completes : ∃ us mid named k, Taken cs us mid ∧ stop.rest = skipBlanks mid ∧ k ≤ n ∧
    sentence (us ++ completion named k)
  /-- A parenthesis lacks its partner only where the text ends. -/
  atEnd : stop.reason = .unbalanced → stop.rest = []
  /-- The stop is no place behind a complete condition. -/
  inside : stop.reason ≠ .trailing

/-- Whether all stops of a reader are mendable, except those for want of levels. -/
def Mends (reader : Reader Expr) (sentence : List Token → Prop) (n : Nat) : Prop :=
  ∀ cs stop, reader cs = .error stop → stop.reason ≠ .tooDeep → Mendable sentence n cs stop

/-- A stop is mendable behind tokens that may stand in front of a sentence. -/
theorem Mendable.after {sentence sentence' : List Token → Prop} {n : Nat} {stop : Stop}
    (h : Mendable sentence n mid stop) (hfront : Taken cs ts mid)
    (hsentence : ∀ us, sentence us → sentence' (ts ++ us)) :
    Mendable sentence' n cs stop := by
  obtain ⟨us, mid', named, k, htaken, hstop, hk, hcomplete⟩ := h.completes
  refine ⟨⟨ts ++ us, mid', named, k, hfront.append htaken, hstop, hk, ?_⟩, h.atEnd, h.inside⟩
  rw [List.append_assoc]
  exact hsentence _ hcomplete

section Mends

variable {reader : Reader Expr} {lang : Language} {n : Nat}

/-- A condition in parentheses is completed as it is without them, and then closed. -/
theorem Mends.enclosed (h : Mends reader (Sentence lang) n) (hsound : Sound reader lang)
    (hopening : TokenAt cs .opening mid) {stop : Stop} (hread : enclosed reader mid = .error stop)
    (hdeep : stop.reason ≠ .tooDeep) :
    Mendable (Sentence (Operand lang)) (n + 1) cs stop := by
  have hclosed : ∀ ts named k, Sentence lang (ts ++ completion named k) →
      Sentence (Operand lang) (.opening :: ts ++ completion named (k + 1)) := by
    rintro ts named k ⟨e, hderives⟩
    rw [completion_succ, List.cons_append, ← List.append_assoc]
    exact ⟨e, .enclosed hderives⟩
  rcases enclosed_eq_error hread with hinner | ⟨e, rest, hinner, hstop, hreason⟩
  -- The condition itself was not read.
  · have hinside := h mid stop hinner hdeep
    obtain ⟨us, mid', named, k, htaken, hstop, hk, hcomplete⟩ := hinside.completes
    exact ⟨⟨_, mid', named, k + 1, .cons hopening htaken, hstop, Nat.succ_le_succ hk,
      hclosed us named k hcomplete⟩, hinside.atEnd, hinside.inside⟩
  -- It was, but no parenthesis follows it.
  · obtain ⟨ts, hderives, htaken⟩ := hsound _ _ _ hinner
    have hcomplete := hclosed ts false 0 ⟨e, by simpa [completion] using hderives⟩
    refine ⟨⟨_, rest, false, 1, .cons hopening htaken, hstop, by omega, hcomplete⟩, ?_, ?_⟩
    · intro hunbalanced
      rcases hreason with ⟨-, hend⟩ | hunknown
      · exact hend
      · rw [hunknown] at hunbalanced
        cases hunbalanced
    · intro htrailing
      simp [htrailing] at hreason

/-- A name can stand where no operand was found. -/
theorem Mends.operand (h : Mends reader (Sentence lang) n) (hsound : Sound reader lang) :
    Mends (operand reader) (Sentence (Operand lang)) (n + 1) := by
  intro cs stop hread hdeep
  rcases operand_eq_error hread with ⟨hstop, hreason⟩ | ⟨mid, hopening, hread⟩
  · refine ⟨⟨[], cs, true, 0, .nil, hstop, Nat.zero_le _, _, .atom rfl⟩, ?_, ?_⟩
    · intro hunbalanced
      simp [hunbalanced] at hreason
    · intro htrailing
      simp [htrailing] at hreason
  · exact h.enclosed hsound hopening hread hdeep

/-- A comparison is completed on the side on which it stops. -/
theorem Mends.comparison (h : Mends reader (Sentence lang) n) (hsound : Sound reader lang) :
    Mends (comparison reader) (Sentence (Comparison lang)) n := by
  intro cs stop hread hdeep
  obtain ⟨mid, hresumes, hoperand⟩ := comparison_eq_error hsound hread
  have hmendable := h mid stop hoperand hdeep
  -- A left operand is a comparison alone; a right one needs the left one in front.
  cases hresumes with
  | first =>
    refine hmendable.after .nil ?_
    rintro us ⟨e, hright⟩
    exact ⟨e, .single hright⟩
  | later hleft hop htaken =>
    obtain ⟨op, rfl⟩ := hop
    refine hmendable.after htaken ?_
    rintro us ⟨e, hright⟩
    rw [List.append_assoc]
    exact ⟨_, .compared hleft hright⟩

theorem Mends.negation (h : Mends reader (Sentence lang) n) :
    Mends (negation reader) (Sentence (Negation lang)) n := by
  intro cs stop hread hdeep
  obtain ⟨count, mid, hnots, hcomparison⟩ := negation_eq_error hread
  refine (h mid stop hcomparison hdeep).after hnots ?_
  rintro us ⟨e, hderives⟩
  exact ⟨_, .replicate hderives count⟩

/-- The item of a chain at which it stops is completed, and the chain ends there. -/
theorem Mends.chain (h : Mends reader (Sentence lang) n) (hsound : Sound reader lang)
    {op : Connective} {operator : List Char → Option (List Char)} (hoperator : Finds operator op) :
    Mends (chain op operator reader) (Sentence (Chain op lang)) n := by
  intro cs stop hread hdeep
  obtain ⟨mid, hresumes, hitem⟩ := chain_eq_error hsound hoperator hread
  have hmendable := h mid stop hitem hdeep
  cases hresumes with
  | first =>
    refine hmendable.after .nil ?_
    rintro us ⟨e, hderives⟩
    exact ⟨e, .single hderives⟩
  | later hchain hop htaken =>
    subst hop
    refine hmendable.after htaken ?_
    rintro us ⟨e, hderives⟩
    rw [List.append_assoc]
    exact hchain.snoc hderives

end Mends

/-- Whatever is refused while a condition is read is mendable, except for want of levels. -/
theorem mends_disjunction (levels : Nat) :
    Mends (disjunction levels) (Sentence (Derives levels)) levels := by
  induction levels with
  | zero =>
    -- Without a level there is no other stop than the one for want of levels.
    intro cs stop hread hdeep
    cases hread
    exact absurd rfl hdeep
  | succ levels ih =>
    have hsound := sound_disjunction levels
    have hcomparisons := (ih.operand hsound).comparison hsound.operand
    have hconjunctions := hcomparisons.negation.chain hsound.operand.comparison.negation
      takeAnd_eq_some_iff
    exact hconjunctions.chain (hsound.operand.comparison.negation.chain takeAnd_eq_some_iff)
      takeOr_eq_some_iff

/-! ### Faults -/

/-- Where a whole text is refused: within a condition that can be completed, or behind one that is
complete. -/
theorem readAll_eq_error {stop : Stop} (h : readAll cs = .error stop)
    (hreason : stop.reason ∈ [.missingOperand, .unknownToken, .trailing, .unbalanced]) :
    ∃ before, cs = before ++ stop.rest ∧
      ((∃ named k ts, k ≤ maxNesting + 1 ∧ Tokens (before ++ ending named k) ts ∧
          Sentence (Derives (maxNesting + 1)) ts ∧ stop.reason ≠ .trailing ∧
          (stop.reason = .unbalanced → stop.rest = [])) ∨
        ∃ ts, Tokens before ts ∧ Sentence (Derives (maxNesting + 1)) ts) := by
  rw [readAll] at h
  -- The checks that come first have reasons of their own.
  split at h
  · cases h
    simp at hreason
  split at h
  · cases h
    simp at hreason
  split at h
  · cases h
    simp at hreason
  split at h
  · rename_i stop' hread
    cases h
    have hmendable := mends_disjunction _ cs stop hread (by rintro hdeep; simp [hdeep] at hreason)
    obtain ⟨us, mid, named, k, htaken, hstop, hk, hcomplete⟩ := hmendable.completes
    obtain ⟨before, hcs, htokens⟩ := htaken.tokens_ending named k
    rw [← hstop] at hcs
    exact ⟨before, hcs, Or.inl ⟨named, k, _, hk, htokens, hcomplete, hmendable.inside,
      hmendable.atEnd⟩⟩
  · rename_i e rest hread
    obtain ⟨ts, hderives, htaken⟩ := sound_disjunction _ _ _ _ hread
    obtain ⟨before, hcs, htokens⟩ := htaken.exists_tokens
    split at h
    · cases h
    · cases h
      exact ⟨before, hcs, Or.inr ⟨ts, htokens, e, hderives⟩⟩

/-- A fault is the place and the reason for which reading stopped. -/
theorem exists_stop_of_compile {source : String} {fault : Fault}
    (h : compile source = .error fault) :
    ∃ stop, readAll source.toList = .error stop ∧ fault.reason = stop.reason ∧
      fault.offset = offsetOf source.toList stop.rest := by
  rw [compile] at h
  split at h
  · cases h
  · rename_i stop hread
    cases h
    exact ⟨stop, hread, rfl, rfl⟩

/-- A sentence that is short enough compiles. -/
theorem Tokens.compiles (h : Tokens cs ts) (hsentence : Sentence (Derives (maxNesting + 1)) ts)
    (hbytes : byteLength cs ≤ maxBytes) :
    ∃ c, compile (String.ofList cs) = .ok c := by
  obtain ⟨e, hderives⟩ := hsentence
  refine ⟨⟨_, e⟩, compile_eq_ok_iff.mpr ⟨rfl, ?_⟩⟩
  rw [String.toList_ofList]
  exact ⟨hbytes, ts, h, hderives⟩

/-- The fault of a condition is where its text goes wrong. The position is the end of a part of the
text, and some text after this part makes a condition of it. Where a condition is complete before
its text ends, the part is a condition itself. -/
theorem fault_at_first_error {source : String} {fault : Fault}
    (hcompile : compile source = .error fault) (hbytes : byteLength source.toList ≤ 4000)
    (hreason : fault.reason ∈ [.missingOperand, .unknownToken, .trailing, .unbalanced]) :
    ∃ before after, source.toList = before ++ after ∧
      fault.offset = byteLength before ∧ fault.offset ≤ byteLength source.toList ∧
      (∃ suffix c, compile (String.ofList (before ++ suffix)) = .ok c) ∧
      (fault.reason = .trailing ∨
          fault.reason = .unbalanced ∧ fault.offset < byteLength source.toList →
        ∃ c, compile (String.ofList before) = .ok c) := by
  obtain ⟨stop, hread, hsame, hoffset⟩ := exists_stop_of_compile hcompile
  rw [hsame] at hreason ⊢
  obtain ⟨before, hsource, hcases⟩ := readAll_eq_error hread hreason
  rw [hsource, offsetOf_append] at hoffset
  rw [hsource, byteLength_append] at hbytes
  have hlength : byteLength source.toList = byteLength before + byteLength stop.rest := by
    rw [hsource, byteLength_append]
  refine ⟨before, stop.rest, hsource, hoffset, by omega, ?_⟩
  rcases hcases with ⟨named, k, ts, hk, htokens, hsentence, htrailing, hend⟩ | ⟨ts, htokens,
    hsentence⟩
  · constructor
    · -- The ending has 67 bytes at most, and there is room for 96.
      have hending := byteLength_ending_le named k
      refine ⟨ending named k, htokens.compiles hsentence ?_⟩
      rw [byteLength_append]
      simp only [maxBytes, maxNesting] at hk ⊢
      omega
    · rintro (hreason | ⟨hunbalanced, hbefore⟩)
      · exact absurd hreason htrailing
      · have hnil : byteLength stop.rest = 0 := by
          rw [hend hunbalanced]
          rfl
        omega
  -- The text in front of the fault is complete, so nothing has to follow it.
  · have hbefore := htokens.compiles hsentence (by rw [maxBytes]; omega)
    refine ⟨⟨[], ?_⟩, fun _ => hbefore⟩
    rw [List.append_nil]
    exact hbefore

/-- Where the operand after a comparator of three bytes is missing, the text in front can still
become a condition; in front of a parenthesis that closes nothing, it is one. -/
theorem fault_at_first_error_wide :
    (compile "(a ≥ ) b" = .error ⟨"(a ≥ ) b", 7, .missingOperand⟩ ∧
      ∃ before suffix c, byteLength before = 7 ∧
        compile (String.ofList (before ++ suffix)) = .ok c) ∧
    (compile "a ≥ 1 ) b" = .error ⟨"a ≥ 1 ) b", 8, .unbalanced⟩ ∧
      ∃ before c, byteLength before = 8 ∧ compile (String.ofList before) = .ok c) := by
  have hmissing : compile "(a ≥ ) b" = .error ⟨"(a ≥ ) b", 7, .missingOperand⟩ := rfl
  have hclosing : compile "a ≥ 1 ) b" = .error ⟨"a ≥ 1 ) b", 8, .unbalanced⟩ := rfl
  obtain ⟨before, -, -, hoffset, -, ⟨suffix, c, hcomplete⟩, -⟩ :=
    fault_at_first_error hmissing (by decide) (by decide)
  obtain ⟨before', -, -, hoffset', -, -, hcondition⟩ :=
    fault_at_first_error hclosing (by decide) (by decide)
  obtain ⟨c', hcomplete'⟩ := hcondition (Or.inr ⟨rfl, by decide⟩)
  exact ⟨⟨hmissing, before, suffix, c, hoffset.symm, hcomplete⟩,
    hclosing, before', c', hoffset'.symm, hcomplete'⟩

end Phrasebook.Condition

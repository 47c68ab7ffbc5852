import Phrasebook.Proofs.Condition.Writing

/-!
# Trees that can be written

A tree is well formed if its literals and parameters have spellings and its connections have two
operands or more. Every well-formed tree can be written, so what is proved about writings is said of
all of them.

* `Written.weaken`: a writing also stands where more is allowed;
* `WellFormed.exists_written`: every well-formed tree has a writing, and the writing a spelling.
-/

namespace Phrasebook.Condition

open Text

/-- Whether a tree can be written: its literals and parameters have spellings, and its connections
have two operands or more. -/
inductive WellFormed : Expr → Prop where
  /-- A literal or a parameter that has a spelling. -/
  | atom {e : Expr} {t : Token} {text : List Char} (hspelled : Spelled t text)
      (h : t.atom? = some e) : WellFormed e
  /-- A comparison. -/
  | compare {op : Comparator} {left right : Expr} (hleft : WellFormed left)
      (hright : WellFormed right) : WellFormed (.compare op left right)
  /-- A negation. -/
  | negate {e : Expr} (inner : WellFormed e) : WellFormed (.negate e)
  /-- A connection of two operands or more. -/
  | connect {op : Connective} {es : List Expr} (hmany : 2 ≤ es.length)
      (hoperands : ∀ e ∈ es, WellFormed e) : WellFormed (.connect op es)

/-! ### Writings at other places -/

/-- What is written also stands where weaker binding or deeper parentheses are allowed. -/
theorem Written.weaken {depth : Nat} {place : Rank} {e : Expr} {ts : List Token}
    (h : Written depth place e ts) {depth' : Nat} {place' : Rank} (hdepth : depth ≤ depth')
    (hplace : place.looseness ≤ place'.looseness) :
    Written depth' place' e ts := by
  -- Only the place of the whole tree changes; the places of its operands depend on their rule.
  induction h generalizing depth' place' with
  | atom hatom => exact .atom hatom
  | compare hlow _ _ hleft hright =>
    have hlow' := Nat.le_trans hlow hplace
    exact .compare hlow' (hleft hdepth (Nat.le_refl _)) (hright hdepth (Nat.le_refl _))
  | negate hlow _ inner =>
    exact .negate (Nat.le_trans hlow hplace) (inner hdepth (Nat.le_refl _))
  | connect hlow hmany _ hparts =>
    refine .connect (Nat.le_trans hlow hplace) hmany ?_
    exact fun part hpart => hparts part hpart hdepth (Nat.le_refl _)
  | enclosed _ inner =>
    obtain ⟨n, rfl⟩ : ∃ n, depth' = n + 1 := ⟨depth' - 1, by omega⟩
    exact .enclosed (inner (by omega) (Nat.le_refl _))

/-! ### Tokens with spellings -/

/-- Whether every one of the tokens has a spelling. -/
def Spellable (ts : List Token) : Prop :=
  ∀ t ∈ ts, ∃ text, Spelled t text

/-- Every operator has a sign. -/
theorem exists_spelled_of_isOperator {t : Token} (ht : t.isOperator = true) :
    ∃ text, Spelled t text := by
  have hmem : t ∈ signs.map Prod.snd := by
    cases t with
    | connective op => cases op <;> decide
    | negation => decide
    | comparator op => cases op <;> decide
    | opening => decide
    | closing => decide
    | literal value => cases ht
    | integer n => cases ht
    | param name => cases ht
  obtain ⟨⟨text, t⟩, hsign, rfl⟩ := List.mem_map.mp hmem
  exact ⟨text, .sign hsign⟩

/-- Tokens that have spellings can be spelled with blanks between them. -/
theorem Spellable.exists_spaced {ts : List Token} (h : Spellable ts) :
    ∃ cs, Spaced ts (' ' :: cs) := by
  have hblank : ∀ c ∈ [' '], isBlank c = true := List.forall_mem_singleton.mpr rfl
  induction ts with
  | nil => exact ⟨[], .nil hblank⟩
  | cons t ts ih =>
    obtain ⟨text, hspelled⟩ := h t List.mem_cons_self
    obtain ⟨cs, hspaced⟩ := ih fun t ht => h t (List.mem_cons_of_mem _ ht)
    exact ⟨_, .cons hblank hspelled (stops_cons.mpr rfl) hspaced⟩

/-! ### Writable trees -/

/-- `Writable e`: some spelled tokens write the tree `e` where an operand is asked for. -/
def Writable (e : Expr) : Prop :=
  ∃ depth ts, Written depth .operand e ts ∧ Spellable ts

/-- A tree is writable as an operand if it is where nothing is asked for, in parentheses. -/
theorem Writable.of_enclosed {depth : Nat} {e : Expr} {ts : List Token}
    (h : Written depth .disjunction e ts) (hts : Spellable ts) :
    Writable e := by
  refine ⟨depth + 1, _, .enclosed h, ?_⟩
  simp only [Spellable, List.mem_cons, List.mem_append, List.not_mem_nil, or_false]
  rintro t (rfl | ht | rfl)
  · exact exists_spelled_of_isOperator rfl
  · exact hts t ht
  · exact exists_spelled_of_isOperator rfl

/-- What stands between connectives is in one of the parts. -/
theorem mem_intercalate {sep t : Token} {parts : List (Expr × List Token)}
    (h : t ∈ [sep].intercalate (parts.map Prod.snd)) :
    t = sep ∨ ∃ part ∈ parts, t ∈ part.2 := by
  cases parts with
  | nil => cases h
  | cons first more =>
    rw [List.map_cons, intercalate_cons] at h
    rcases List.mem_append.mp h with h | h
    · exact Or.inr ⟨first, List.mem_cons_self, h⟩
    · obtain ⟨part, hpart, h⟩ := List.mem_flatMap.mp h
      rcases List.mem_cons.mp h with rfl | h
      · exact Or.inl rfl
      · exact Or.inr ⟨part, List.mem_cons_of_mem _ hpart, h⟩

/-- Writable trees are written together, with room for the deepest of their parentheses. -/
theorem exists_parts_of_writable {es : List Expr} (h : ∀ e ∈ es, Writable e) :
    ∃ depth, ∃ parts : List (Expr × List Token), parts.map Prod.fst = es ∧
      ∀ part ∈ parts, Written depth .operand part.1 part.2 ∧ Spellable part.2 := by
  induction es with
  | nil => exact ⟨0, [], rfl, by simp⟩
  | cons e es ih =>
    obtain ⟨depth, ts, hwritten, hts⟩ := h e List.mem_cons_self
    obtain ⟨depth', parts, rfl, hparts⟩ := ih fun e he => h e (List.mem_cons_of_mem _ he)
    refine ⟨max depth depth', (e, ts) :: parts, rfl, ?_⟩
    intro part hpart
    rcases List.mem_cons.mp hpart with rfl | hpart
    · exact ⟨hwritten.weaken (Nat.le_max_left _ _) (Nat.le_refl _), hts⟩
    · obtain ⟨hwritten', hts'⟩ := hparts part hpart
      exact ⟨hwritten'.weaken (Nat.le_max_right _ _) (Nat.le_refl _), hts'⟩

/-- Every well-formed tree can be written. -/
theorem WellFormed.writable {e : Expr} (h : WellFormed e) :
    Writable e := by
  -- Every operand but a literal or a parameter is put in parentheses, needed or not.
  induction h with
  | @atom e t text hspelled hatom =>
    refine ⟨0, [t], .atom hatom, ?_⟩
    intro t' ht'
    rw [List.mem_singleton.mp ht']
    exact ⟨text, hspelled⟩
  | @compare op left right _ _ hleft hright =>
    obtain ⟨depth, ts, hwritten, hts⟩ := hleft
    obtain ⟨depth', us, hwritten', hus⟩ := hright
    refine .of_enclosed (.compare (by decide)
      (hwritten.weaken (Nat.le_max_left depth depth') (Nat.le_refl _))
      (hwritten'.weaken (Nat.le_max_right depth depth') (Nat.le_refl _))) ?_
    intro t ht
    rcases List.mem_append.mp ht with ht | ht
    · exact hts t ht
    rcases List.mem_cons.mp ht with rfl | ht
    · exact exists_spelled_of_isOperator rfl
    · exact hus t ht
  | negate _ inner =>
    obtain ⟨depth, ts, hwritten, hts⟩ := inner
    have hinner := hwritten.weaken (Nat.le_refl depth) (Nat.zero_le Rank.negation.looseness)
    refine .of_enclosed (.negate (by decide) hinner) ?_
    intro t ht
    rcases List.mem_cons.mp ht with rfl | ht
    · exact exists_spelled_of_isOperator rfl
    · exact hts t ht
  | @connect op es hmany _ hoperands =>
    obtain ⟨depth, parts, rfl, hparts⟩ := exists_parts_of_writable hoperands
    rw [List.length_map] at hmany
    have hplace : op.rank.looseness ≤ Rank.disjunction.looseness := by cases op <;> decide
    refine .of_enclosed (.connect hplace hmany fun part hpart =>
      (hparts part hpart).1.weaken (Nat.le_refl depth) (Nat.zero_le _)) ?_
    intro t ht
    rcases mem_intercalate ht with rfl | ⟨part, hpart, ht⟩
    · exact exists_spelled_of_isOperator rfl
    · exact (hparts part hpart).2 t ht

/-- Every well-formed tree can be written, and the writing can be spelled. -/
theorem WellFormed.exists_written {e : Expr} (h : WellFormed e) :
    ∃ depth ts cs, Written depth .disjunction e ts ∧ Spaced ts cs := by
  obtain ⟨depth, ts, hwritten, hts⟩ := h.writable
  obtain ⟨cs, hspaced⟩ := hts.exists_spaced
  exact ⟨depth, ts, _, hwritten.weaken (Nat.le_refl _) (Nat.zero_le _), hspaced⟩

end Phrasebook.Condition

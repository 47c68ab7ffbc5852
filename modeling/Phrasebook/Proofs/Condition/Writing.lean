import Phrasebook.Proofs.Condition.Compiling

/-!
# Writing conditions

A tree can be written in many ways: every operator and every literal has several spellings, blanks
stand between tokens, and parentheses may stand around any operand. They have to stand where an
operand binds weaker than its place asks for.

* `Written depth place e ts`: the tokens `ts` write the tree `e` at a place that asks for the rank
  `place`, and parentheses nest at most `depth` deep.
* `Spaced ts cs`: `cs` spells the tokens `ts` with blanks between them.
* `compile_of_written`: every writing of a tree compiles to that tree.
-/

namespace Phrasebook.Condition

open Text

/-! ### Ranks -/

/-- The rules of the grammar, from the weakest binding to the strongest. -/
inductive Rank where
  /-- Operands with `or` between them. -/
  | disjunction
  /-- Operands with `and` between them. -/
  | conjunction
  /-- An operand after `not`. -/
  | negation
  /-- Two operands around a comparator. -/
  | comparison
  /-- A literal, a parameter or a tree in parentheses. -/
  | operand
  deriving DecidableEq

/-- How weakly trees of a rank bind. -/
def Rank.looseness : Rank → Nat
  | .disjunction => 4
  | .conjunction => 3
  | .negation => 2
  | .comparison => 1
  | .operand => 0

/-- The rank of a connection. -/
def Connective.rank : Connective → Rank
  | .any => .disjunction
  | .all => .conjunction

/-- The rank that a connective asks of its operands: the next stronger one. -/
def Connective.operandRank : Connective → Rank
  | .any => .conjunction
  | .all => .negation

/-- `Written depth place e ts`: the tokens `ts` write the tree `e` at a place that asks for the rank
`place`, and parentheses nest at most `depth` deep. -/
inductive Written : (depth : Nat) → (place : Rank) → Expr → List Token → Prop where
  /-- A literal or a parameter. -/
  | atom {depth : Nat} {place : Rank} {e : Expr} {t : Token} (h : t.atom? = some e) :
      Written depth place e [t]
  /-- A comparison, where no operand is asked for. -/
  | compare {depth : Nat} {place : Rank} {op : Comparator} {left right : Expr}
      {ts us : List Token} (hplace : Rank.comparison.looseness ≤ place.looseness)
      (hleft : Written depth .operand left ts) (hright : Written depth .operand right us) :
      Written depth place (.compare op left right) (ts ++ .comparator op :: us)
  /-- A negation, where neither a comparison nor an operand is asked for. -/
  | negate {depth : Nat} {place : Rank} {e : Expr} {ts : List Token}
      (hplace : Rank.negation.looseness ≤ place.looseness) (inner : Written depth .negation e ts) :
      Written depth place (.negate e) (.negation :: ts)
  /-- A connection of two operands or more, where none of its own or a stronger rank is asked
  for. -/
  | connect {depth : Nat} {place : Rank} {op : Connective} {parts : List (Expr × List Token)}
      (hplace : op.rank.looseness ≤ place.looseness) (hmany : 2 ≤ parts.length)
      (hparts : ∀ part ∈ parts, Written depth op.operandRank part.1 part.2) :
      Written depth place (.connect op (parts.map Prod.fst))
        ([Token.connective op].intercalate (parts.map Prod.snd))
  /-- Any tree in parentheses. -/
  | enclosed {depth : Nat} {place : Rank} {e : Expr} {ts : List Token}
      (inner : Written depth .disjunction e ts) :
      Written (depth + 1) place e (.opening :: (ts ++ [.closing]))

/-- `Spaced ts cs`: `cs` spells the tokens `ts`, with any blanks in front and at the end and at
least one between two tokens. -/
inductive Spaced : List Token → List Char → Prop where
  /-- Only blanks. -/
  | nil {cs : List Char} (h : ∀ c ∈ cs, isBlank c = true) : Spaced [] cs
  /-- A token before a blank or the end of the text. -/
  | cons {before text rest : List Char} {t : Token} {ts : List Token}
      (hbefore : ∀ c ∈ before, isBlank c = true) (h : Spelled t text) (hapart : Apart rest)
      (more : Spaced ts rest) : Spaced (t :: ts) (before ++ (text ++ rest))

/-! ### Writings and the grammar -/

/-- The language of the trees that bind at most so weakly, over the language of operands. -/
def languageOf (operand : Language) : (looseness : Nat) → Language
  | 0 => operand
  | 1 => Comparison operand
  | 2 => Negation (Comparison operand)
  | 3 => Chain .all (Negation (Comparison operand))
  | _ => Chain .any (Chain .all (Negation (Comparison operand)))

/-- A tree may stand where it could bind more weakly. -/
theorem languageOf_of_le {operand : Language} {m n : Nat} (h : m ≤ n) {ts : List Token} {e : Expr}
    (hderives : languageOf operand m ts e) :
    languageOf operand n ts e := by
  induction h with
  | refl => exact hderives
  | @step n _ ih =>
    match n with
    | 0 => exact .single ih
    | 1 => exact .plain ih
    | 2 => exact .single ih
    | 3 => exact .single ih
    | _ + 4 => exact ih

/-- Items after connectives are further items. -/
theorem further_of_forall {op : Connective} {lang : Language} {parts : List (Expr × List Token)}
    (hparts : ∀ part ∈ parts, lang part.2 part.1) :
    Further op lang (parts.flatMap fun part => .connective op :: part.2) (parts.map Prod.fst) := by
  induction parts with
  | nil => exact .nil
  | cons part parts ih =>
    have hmore := ih fun part hpart => hparts part (List.mem_cons_of_mem _ hpart)
    exact .cons (hparts part List.mem_cons_self) hmore

/-- Parts with a connective between them are a first part and parts after connectives. -/
theorem intercalate_cons (sep : Token) (first : List Token) (more : List (Expr × List Token)) :
    [sep].intercalate (first :: more.map Prod.snd) =
      first ++ more.flatMap fun part => sep :: part.2 := by
  induction more generalizing first with
  | nil => simp [List.intercalate]
  | cons part more ih =>
    have hmore := ih part.2
    simp only [List.intercalate] at hmore ⊢
    rw [List.map_cons, List.intersperse_cons_cons, List.flatten_cons, List.flatten_cons, hmore]
    simp

/-- Two items or more with a connective between them are a chain. -/
theorem chain_of_forall {op : Connective} {lang : Language} {parts : List (Expr × List Token)}
    (hmany : 2 ≤ parts.length) (hparts : ∀ part ∈ parts, lang part.2 part.1) :
    Chain op lang ([Token.connective op].intercalate (parts.map Prod.snd))
      (.connect op (parts.map Prod.fst)) := by
  obtain ⟨first, second, more, rfl⟩ : ∃ first second more, parts = first :: second :: more := by
    cases parts with
    | nil => simp at hmany
    | cons first parts =>
      cases parts with
      | nil => simp at hmany
      | cons second more => exact ⟨first, second, more, rfl⟩
  have hmore : ∀ part ∈ second :: more, lang part.2 part.1 :=
    fun part hpart => hparts part (List.mem_cons_of_mem _ hpart)
  rw [List.map_cons, intercalate_cons]
  exact .several (hparts first List.mem_cons_self) (further_of_forall hmore) (by simp)

/-- What is written at a place binds at most as weakly as the place allows. -/
theorem Written.languageOf {depth : Nat} {place : Rank} {e : Expr} {ts : List Token}
    (h : Written depth place e ts) :
    languageOf (Operand (Derives depth)) place.looseness ts e := by
  induction h with
  | atom hatom => exact languageOf_of_le (Nat.zero_le _) (.atom hatom)
  | compare hplace _ _ hleft hright =>
    exact languageOf_of_le (m := 1) hplace (.compared hleft hright)
  | negate hplace _ inner => exact languageOf_of_le (m := 2) hplace (.negated inner)
  | @connect _ _ op _ hplace hmany _ hparts =>
    refine languageOf_of_le hplace ?_
    cases op <;> exact chain_of_forall hmany hparts
  | enclosed _ inner => exact languageOf_of_le (Nat.zero_le _) (.enclosed inner)

/-! ### Spacing and tokens -/

/-- No token begins with a blank. -/
theorem Spelled.stops_isBlank {t : Token} {text : List Char} (h : Spelled t text)
    (rest : List Char) :
    Stops isBlank (text ++ rest) := by
  have hdigits : ∀ {digits}, IsDigits digits → ∀ rest, Stops isBlank (digits ++ rest) := by
    intro digits hdigits rest
    obtain ⟨d, ds, rfl, hd⟩ := hdigits.exists_cons
    cases hblank : isBlank d with
    | false => exact stops_cons.mpr hblank
    | true =>
      rw [isDigit_eq_false_of_isBlank hblank] at hd
      cases hd
  have hsigned : ∀ {digits}, IsDigits digits → ∀ negative more rest,
      Stops isBlank ((minus negative ++ (digits ++ more)) ++ rest) := by
    intro digits h negative more rest
    cases negative with
    | true => exact stops_cons.mpr (by decide)
    | false =>
      rw [minus, if_neg (by simp), List.nil_append, List.append_assoc]
      exact hdigits h _
  -- One case for each kind of spelling, by its first character.
  cases h with
  | sign hmem =>
    have hsigns : ∀ entry ∈ signs, entry.1.head?.any (!isBlank ·) = true := by decide
    have hhead := hsigns _ hmem
    cases text with
    | nil => cases hhead
    | cons c text => exact stops_cons.mpr (by simpa using hhead)
  | word hmem => exact stops_isBlank_append (isName_of_mem_words hmem).1 rest
  | bare h => exact stops_isBlank_append h.1 rest
  | bracketed => exact stops_cons.mpr (by decide)
  | quoted hquote =>
    refine stops_cons.mpr ?_
    rcases hquote with rfl | rfl <;> decide
  | @integer negative digits h => simpa using hsigned h negative [] rest
  | float hwhole => exact hsigned hwhole _ _ rest

/-- Spaced tokens are the tokens of their text. -/
theorem Spaced.tokens {ts : List Token} {cs : List Char} (h : Spaced ts cs) :
    Tokens cs ts := by
  induction h with
  | @nil cs hblank => exact ⟨cs, .nil, skipBlanks_eq_nil hblank⟩
  | cons hbefore hspelled hapart _ ih =>
    obtain ⟨last, htaken, hlast⟩ := ih
    refine ⟨last, .cons (tokenAt_iff.mpr ?_) htaken, hlast⟩
    rw [skipBlanks_append hbefore, skipBlanks_of_stops (hspelled.stops_isBlank _),
      hspelled.readToken_of_apart hapart]

/-! ### Reading what was written -/

/-- Every writing of a tree is read as that tree. -/
theorem readAll_of_written {cs : List Char} {e : Expr} {ts : List Token}
    (hwritten : Written maxNesting .disjunction e ts) (hspaced : Spaced ts cs)
    (hbytes : byteLength cs ≤ maxBytes) :
    readAll cs = .ok e :=
  readAll_eq_ok_iff.mpr ⟨hbytes, ts, hspaced.tokens, hwritten.languageOf⟩

/-- Every writing of a tree compiles to that tree: with any spelling of its tokens, any blanks
between them, and parentheses around any operand besides those that need them. -/
theorem compile_of_written {source : String} {e : Expr} {ts : List Token}
    (hwritten : Written maxNesting .disjunction e ts) (hspaced : Spaced ts source.toList)
    (hbytes : byteLength source.toList ≤ maxBytes) :
    compile source = .ok ⟨source, e⟩ := by
  rw [compile, readAll_of_written hwritten hspaced hbytes]

/-- A negated alternative whose sides begin with a name that a word begins and with a negation. -/
theorem compile_negated_alternative :
    compile "not ( [ order ] >= 'it\\'s' || ! \u00a0b ) " =
      .ok ⟨"not ( [ order ] >= 'it\\'s' || ! \u00a0b ) ", .negate (.connect .any
        [.compare .ge (.param "order") (.literal (.string "it's")), .negate (.param "b")])⟩ := by
  have hleft : Written 63 .conjunction
      (.compare .ge (.param "order") (.literal (.string "it's")))
      [.param "order", .comparator .ge, .literal (.string "it's")] :=
    .compare (by decide) (.atom rfl) (.atom rfl)
  have hright : Written 63 .conjunction (.negate (.param "b")) [.negation, .param "b"] :=
    .negate (by decide) (.atom rfl)
  have hinner : Written 63 .disjunction
      (.connect .any
        [.compare .ge (.param "order") (.literal (.string "it's")), .negate (.param "b")])
      ([Token.connective .any].intercalate
        [[.param "order", .comparator .ge, .literal (.string "it's")],
          [.negation, .param "b"]]) := by
    refine @Written.connect 63 _ .any [(_, _), (_, _)] (by decide) (by decide) ?_
    intro part hpart
    simp only [List.mem_cons, List.not_mem_nil, or_false] at hpart
    rcases hpart with rfl | rfl
    · exact hleft
    · exact hright
  have hnone : ∀ c ∈ ([] : List Char), isBlank c = true := List.forall_mem_nil _
  have hspace : ∀ c ∈ [' '], isBlank c = true := List.forall_mem_singleton.mpr rfl
  have hwide : ∀ c ∈ [' ', '\u00a0'], isBlank c = true :=
    List.forall_mem_cons.mpr ⟨rfl, List.forall_mem_singleton.mpr rfl⟩
  have hname : Spelled (.param "order") "[ order ]".toList :=
    @Spelled.bracketed [' '] "order".toList [' '] hspace (by decide) hspace
  have hescaped : QuotedAs '\'' (unescape '\'' :: ['s']) ['\\', '\'', 's'] :=
    .escaped (.plain (by decide) (by decide) .nil)
  have hinside : QuotedAs '\'' ['i', 't', '\'', 's'] ['i', 't', '\\', '\'', 's'] :=
    .plain (by decide) (by decide) (.plain (by decide) (by decide) hescaped)
  have htext : Spelled (.literal (.string "it's")) "'it\\'s'".toList :=
    .quoted (Or.inr rfl) hinside
  -- The blanks between the tokens are spaces, but for a no-break space before the last name.
  have hspaced : Spaced
      [.negation, .opening, .param "order", .comparator .ge, .literal (.string "it's"),
        .connective .any, .negation, .param "b", .closing]
      ([] ++ ("not".toList ++ ([' '] ++ (['('] ++ ([' '] ++ ("[ order ]".toList ++
        ([' '] ++ (['>', '='] ++ ([' '] ++ ("'it\\'s'".toList ++ ([' '] ++ (['|', '|'] ++
          ([' '] ++ (['!'] ++ ([' ', '\u00a0'] ++ (['b'] ++ ([' '] ++ ([')'] ++
            [' '])))))))))))))))))) :=
    .cons hnone (.word (by decide)) (stops_cons.mpr rfl)
      (.cons hspace (.sign (by decide)) (stops_cons.mpr rfl)
      (.cons hspace hname (stops_cons.mpr rfl)
      (.cons hspace (.sign (by decide)) (stops_cons.mpr rfl)
      (.cons hspace htext (stops_cons.mpr rfl)
      (.cons hspace (.sign (by decide)) (stops_cons.mpr rfl)
      (.cons hspace (.sign (by decide)) (stops_cons.mpr rfl)
      (.cons hwide (.bare (by decide)) (stops_cons.mpr rfl)
      (.cons hspace (.sign (by decide)) (stops_cons.mpr rfl) (.nil hspace)))))))))
  exact compile_of_written (.negate (by decide) (.enclosed hinner)) hspaced (by decide)

end Phrasebook.Condition

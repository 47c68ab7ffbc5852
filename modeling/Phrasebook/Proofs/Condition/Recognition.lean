import Phrasebook.Proofs.Condition.Tokenizer

/-!
# Readers of single tokens

The readers of conditions look at characters, not at tokens: each tries the spellings that it knows.
The module proves that every one of them finds exactly the tokens it stands for:

* `takeOr_eq_some_iff`, `takeAnd_eq_some_iff`, `takeNot_eq_some_iff` and
  `takeComparator_eq_some_iff` for operators;
* `takeAtom_eq` for operands of one token;
* `operand_eq_ok_iff` for operands of either kind.
-/

namespace Phrasebook.Condition

open Text Number

variable {cs rest : List Char}

/-! ### Operators -/

/-- A text does not continue a name if its first character does not. -/
theorem continuesName_eq_false_iff {cs : List Char} :
    continuesName cs = false ↔ Stops isNameRest cs := by
  cases cs with
  | nil => simp [continuesName]
  | cons c cs => simp [continuesName]

/-- A keyword is taken where it is the whole of a name. -/
theorem takeKeyword_eq_some_iff {word : List Char} (hword : isName word = true) :
    takeKeyword word cs = some rest ↔ takeName cs = some (word, rest) := by
  rw [takeKeyword, Option.filter_eq_some_iff, takeWord_eq_some_iff, takeName_eq_some_iff,
    Bool.not_eq_true', continuesName_eq_false_iff]
  constructor
  · rintro ⟨hcs, hrest⟩
    exact ⟨hcs, hword, hrest⟩
  · rintro ⟨hcs, -, hrest⟩
    exact ⟨hcs, hrest⟩

/-- Where a name is, its word or parameter is the token. -/
theorem readToken_of_takeName {name : List Char} (h : takeName cs = some (name, rest)) :
    readToken cs = some (wordToken name, rest) := by
  obtain ⟨rfl, hname, -⟩ := takeName_eq_some_iff.mp h
  cases name with
  | nil => cases hname
  | cons c name =>
    rw [List.cons_append] at h ⊢
    rw [readToken_of_isNameStart (isName_cons.mp hname).1, h]
    rfl

/-- Where a sign is, it is the token. -/
theorem readToken_of_readSign {t : Token} (h : readSign cs = some (t, rest)) :
    readToken cs = some (t, rest) := by
  obtain ⟨text, hmem, rfl⟩ := exists_sign_of_readSign h
  obtain ⟨c, more, rfl, hc⟩ := isSignStart_of_mem_signs hmem
  rw [List.cons_append] at h ⊢
  rw [readToken_of_isSignStart hc, h]

/-- No text begins with a name and with a sign. -/
theorem readSign_eq_none_of_takeName {name : List Char} (h : takeName cs = some (name, rest)) :
    readSign cs = none := by
  cases hread : readSign cs with
  | none => rfl
  | some read =>
    obtain ⟨text, hmem, hcs⟩ := exists_sign_of_readSign hread
    obtain ⟨c, more, rfl, hc⟩ := isSignStart_of_mem_signs hmem
    subst hcs
    -- The first character would start a name and a sign.
    rw [List.cons_append, takeName] at h
    split at h
    · rename_i hstart
      simp [isSignStart, hstart] at hc
    · cases h

/-- Whether a token is neither an operand nor an integer that is too large to be one. -/
def Token.isOperator : Token → Bool
  | .literal _ | .integer _ | .param _ => false
  | _ => true

/-- A number is no operator. -/
theorem isOperator_of_readNumeral {t : Token} (h : readNumeral cs = some (t, rest)) :
    t.isOperator = false := by
  rw [readNumeral, readUnsigned] at h
  split at h
  · cases h
  · split at h <;> cases h <;> rfl

/-- An operator is a word of the table or a sign. -/
theorem readToken_eq_some_iff_of_isOperator {t : Token} (ht : t.isOperator = true) :
    readToken cs = some (t, rest) ↔
      (∃ word, (word, t) ∈ words ∧ takeName cs = some (word, rest)) ∨
        readSign cs = some (t, rest) := by
  constructor
  · intro h
    cases cs with
    | nil => cases h
    | cons c cs =>
      -- A text in quotes, a name in brackets or a number is no operator; a name may be one.
      rw [readToken] at h
      split at h
      · obtain ⟨read, -, heq⟩ := Option.map_eq_some_iff.mp h
        cases heq
        cases ht
      split at h
      · obtain ⟨read, -, heq⟩ := Option.map_eq_some_iff.mp h
        cases heq
        cases ht
      split at h
      · rw [isOperator_of_readNumeral h] at ht
        cases ht
      split at h
      · obtain ⟨⟨name, rest'⟩, htake, heq⟩ := Option.map_eq_some_iff.mp h
        cases heq
        rw [wordToken] at ht ⊢
        cases hword : words.lookup name with
        | none =>
          rw [hword] at ht
          cases ht
        | some t =>
          obtain ⟨before, after, hsplit, -⟩ := List.lookup_eq_some_iff.mp hword
          exact Or.inl ⟨name, by rw [hsplit]; simp, htake⟩
      · exact Or.inr h
  · rintro (⟨word, hmem, htake⟩ | hread)
    · rw [readToken_of_takeName htake, (isName_of_mem_words hmem).2]
    · exact readToken_of_readSign hread

/-- An operator with one word and one sign is taken where its token is. -/
theorem orElse_eq_some_iff_tokenAt {t : Token} (ht : t.isOperator = true) {word : List Char}
    (hword : ∀ name, (name, t) ∈ words ↔ name = word) {takeSign : List Char → Option (List Char)}
    (hsign : ∀ cs rest, takeSign cs = some rest ↔ readSign cs = some (t, rest)) :
    (takeKeyword word (skipBlanks cs) <|> takeSign (skipBlanks cs)) = some rest ↔
      TokenAt cs t rest := by
  have hname := (isName_of_mem_words ((hword word).mpr rfl)).1
  simp only [tokenAt_iff, readToken_eq_some_iff_of_isOperator ht, hword, exists_eq_left,
    ← takeKeyword_eq_some_iff hname, ← hsign, Option.orElse_eq_orElse, Option.orElse_eq_or,
    Option.or_eq_some_iff]
  constructor
  · rintro (h | ⟨-, h⟩)
    · exact Or.inl h
    · exact Or.inr h
  · rintro (h | h)
    · exact Or.inl h
    -- The sign is only tried where the word is not, which is so wherever a sign stands.
    · refine Or.inr ⟨?_, h⟩
      cases hkeyword : takeKeyword word (skipBlanks cs) with
      | none => rfl
      | some rest' =>
        have hnone := readSign_eq_none_of_takeName ((takeKeyword_eq_some_iff hname).mp hkeyword)
        rw [(hsign _ _).mp h] at hnone
        cases hnone

/-- A sign that begins no longer one is taken where its token is. -/
theorem takeWord_eq_some_iff_readSign {sign : List Char} {t : Token}
    (hread : ∀ rest, readSign (sign ++ rest) = some (t, rest))
    (honly : ∀ text, (text, t) ∈ signs → text = sign) :
    takeWord sign cs = some rest ↔ readSign cs = some (t, rest) := by
  rw [takeWord_eq_some_iff]
  constructor
  · rintro rfl
    exact hread rest
  · intro h
    obtain ⟨text, hmem, rfl⟩ := exists_sign_of_readSign h
    rw [honly text hmem]

/-- The word `or` and the sign `||` are the token of a disjunction. -/
theorem takeOr_eq_some_iff :
    takeOr cs = some rest ↔ TokenAt cs (.connective .any) rest := by
  refine orElse_eq_some_iff_tokenAt rfl (by simp [words]) ?_
  exact fun _ _ => takeWord_eq_some_iff_readSign (fun _ => rfl) (by simp [signs])

/-- The word `and` and the sign `&&` are the token of a conjunction. -/
theorem takeAnd_eq_some_iff :
    takeAnd cs = some rest ↔ TokenAt cs (.connective .all) rest := by
  refine orElse_eq_some_iff_tokenAt rfl (by simp [words]) ?_
  exact fun _ _ => takeWord_eq_some_iff_readSign (fun _ => rfl) (by simp [signs])

/-- An exclamation mark is taken where it begins no `!=`. -/
theorem takeBang_eq_some_iff :
    takeBang cs = some rest ↔ readSign cs = some (.negation, rest) := by
  constructor
  · intro h
    rw [takeBang.eq_def] at h
    split at h
    · cases h
    · rename_i hequals
      cases h
      -- The entry of `!=` comes first in the table, but no `=` follows here.
      cases rest with
      | nil => rfl
      | cons c rest =>
        have hc : '=' ≠ c := by
          rintro rfl
          exact hequals _ rfl
        simp [readSign, signs, takeWord, hc]
    · cases h
  · intro h
    obtain ⟨text, hmem, rfl⟩ := exists_sign_of_readSign h
    obtain rfl : text = ['!'] := by simpa [signs] using hmem
    cases rest with
    | nil => rfl
    | cons c rest =>
      have hc : c ≠ '=' := by
        rintro rfl
        simp [readSign, signs, takeWord] at h
      simp [takeBang, hc]

/-- The word `not` and an exclamation mark that begins no `!=` are the token of a negation. -/
theorem takeNot_eq_some_iff :
    takeNot cs = some rest ↔ TokenAt cs .negation rest :=
  orElse_eq_some_iff_tokenAt rfl (by simp [words]) fun _ _ => takeBang_eq_some_iff

/-- The signs are those of connectives, those of comparators and three others. -/
theorem readSign_eq (cs : List Char) :
    readSign cs =
      (((signs.take 2).findSome? fun (spelling, t) => (takeWord spelling cs).map (t, ·)).or
        ((comparatorSpellings.findSome? fun (spelling, op) =>
            (takeWord spelling cs).map (op, ·)).map
          fun (op, rest) => (Token.comparator op, rest))).or
        ((signs.drop 12).findSome? fun (spelling, t) => (takeWord spelling cs).map (t, ·)) := by
  have hsigns : signs = signs.take 2 ++
      comparatorSpellings.map (fun (spelling, op) => (spelling, Token.comparator op)) ++
        signs.drop 12 := rfl
  rw [readSign, hsigns, List.findSome?_append, List.findSome?_append, List.findSome?_map,
    List.map_findSome?, ← hsigns]
  congr 3
  funext entry
  simp [Function.comp_def]

/-- The signs of comparators are the tokens of comparators. -/
theorem takeComparator_eq_some_iff {op : Comparator} :
    takeComparator cs = some (op, rest) ↔ TokenAt cs (.comparator op) rest := by
  have hwords : ∀ name, (name, Token.comparator op) ∉ words := by simp [words]
  simp only [tokenAt_iff, readToken_eq_some_iff_of_isOperator (t := .comparator op) rfl, hwords,
    false_and, exists_false, false_or, takeComparator]
  constructor
  · intro h
    rw [readSign_eq, h]
    obtain ⟨⟨spelling, op'⟩, hmem, hread⟩ := List.exists_of_findSome?_eq_some h
    obtain ⟨rest', htake, -⟩ := Option.map_eq_some_iff.mp hread
    rw [takeWord_eq_some_iff.mp htake]
    simp only [comparatorSpellings, List.mem_cons, List.not_mem_nil, or_false] at hmem
    rcases hmem with hmem | hmem | hmem | hmem | hmem | hmem | hmem | hmem | hmem | hmem <;>
      cases hmem <;> rfl
  · intro h
    -- The comparator is found between two parts of the table that have none.
    have hothers : ∀ entry ∈ signs.take 2 ++ signs.drop 12, entry.2 ≠ .comparator op := by
      simp [signs]
    rw [readSign_eq, Option.or_eq_some_iff, Option.or_eq_some_iff] at h
    rcases h with (h | ⟨-, h⟩) | ⟨-, h⟩
    · obtain ⟨entry, hmem, hread⟩ := List.exists_of_findSome?_eq_some h
      obtain ⟨rest', -, heq⟩ := Option.map_eq_some_iff.mp hread
      exact absurd (congrArg Prod.fst heq) (hothers entry (List.mem_append_left _ hmem))
    · obtain ⟨read, hread, heq⟩ := Option.map_eq_some_iff.mp h
      cases heq
      exact hread
    · obtain ⟨entry, hmem, hread⟩ := List.exists_of_findSome?_eq_some h
      obtain ⟨rest', -, heq⟩ := Option.map_eq_some_iff.mp hread
      exact absurd (congrArg Prod.fst heq) (hothers entry (List.mem_append_right _ hmem))

/-! ### Parentheses -/

/-- An operator with a sign only is the token where its sign stands. -/
theorem tokenAt_iff_skipBlanks_eq {t : Token} (sign : List Char) (ht : t.isOperator = true)
    (hwords : ∀ name, (name, t) ∉ words)
    (hread : ∀ rest, readSign (sign ++ rest) = some (t, rest))
    (honly : ∀ text, (text, t) ∈ signs → text = sign) :
    TokenAt cs t rest ↔ skipBlanks cs = sign ++ rest := by
  simp only [tokenAt_iff, readToken_eq_some_iff_of_isOperator ht, hwords, false_and, exists_false,
    false_or, ← takeWord_eq_some_iff_readSign hread honly, takeWord_eq_some_iff]

/-- An opening parenthesis is the token of one. -/
theorem tokenAt_opening_iff :
    TokenAt cs .opening rest ↔ skipBlanks cs = '(' :: rest :=
  tokenAt_iff_skipBlanks_eq ['('] rfl (by simp [words]) (fun _ => rfl) (by simp [signs])

/-- A closing parenthesis is the token of one. -/
theorem tokenAt_closing_iff :
    TokenAt cs .closing rest ↔ skipBlanks cs = ')' :: rest :=
  tokenAt_iff_skipBlanks_eq [')'] rfl (by simp [words]) (fun _ => rfl) (by simp [signs])

/-! ### Operands of one token -/

/-- No number starts with a character other than a minus sign and a digit. -/
theorem takeNumber_eq_none {c : Char} (hminus : c ≠ '-') (hdigit : c.isDigit = false) :
    takeNumber (c :: cs) = none := by
  have htake : takeMinus (c :: cs) = (false, c :: cs) := by simp [takeMinus, hminus]
  simp [takeNumber, htake, takeDigits, hdigit]

/-- A number is an operand where its token is one. -/
theorem takeNumber_map (cs : List Char) :
    (takeNumber cs).map (fun (v, rest) => (Expr.literal v, rest)) =
      (readNumeral cs).bind fun (t, rest) => t.atom?.map (·, rest) := by
  rw [takeNumber, readNumeral, readUnsigned]
  obtain ⟨negative, unsigned⟩ := takeMinus cs
  dsimp only
  cases takeDigits unsigned with
  | none => rfl
  -- Both readers look for a fraction next; an integer that does not fit is refused by either.
  | some taken =>
    obtain ⟨whole, rest⟩ := taken
    simp only [Option.bind_eq_bind, Option.bind_some]
    cases hfraction : takeFraction rest with
    | none =>
      simp only [Option.bind_some, Token.atom?, signedInt64?, Option.map_map]
      rfl
    | some taken => rfl

/-- A keyword is taken off a text whose name it is. -/
theorem takeKeyword_eq_bind (word : List Char) (hword : isName word = true) (cs : List Char) :
    takeKeyword word cs =
      (takeName cs).bind fun (name, rest) => if name = word then some rest else none := by
  refine Option.ext fun rest => ?_
  rw [takeKeyword_eq_some_iff hword, Option.bind_eq_some_iff]
  constructor
  · intro h
    exact ⟨_, h, if_pos rfl⟩
  · rintro ⟨⟨name, rest'⟩, htake, h⟩
    dsimp only at h
    split at h
    · rename_i hname
      cases h
      rw [htake, hname]
    · cases h

/-- A name is a truth value, a parameter or no operand. -/
theorem takeTruth_orElse_takeParam {c : Char} (hc : isNameStart c = true) (cs : List Char) :
    ((takeTruth (c :: cs)).map fun (b, rest) => (Expr.literal (.boolean b), rest)).or
        ((takeParam (c :: cs)).map fun (name, rest) => (.param (String.ofList name), rest)) =
      (readToken (c :: cs)).bind fun (t, rest) => t.atom?.map (·, rest) := by
  rw [readToken_of_isNameStart hc, takeTruth, takeParam,
    takeKeyword_eq_bind ['t', 'r', 'u', 'e'] rfl,
    takeKeyword_eq_bind ['f', 'a', 'l', 's', 'e'] rfl]
  cases htake : takeName (c :: cs) with
  | none => rfl
  | some taken =>
    obtain ⟨name, rest⟩ := taken
    -- A word of the table is a truth value or no operand; any other name is a parameter.
    by_cases hreserved : name ∈ reserved
    · simp only [reserved, List.mem_cons, List.not_mem_nil, or_false] at hreserved
      rcases hreserved with rfl | rfl | rfl | rfl | rfl <;> rfl
    · have hname : NamesParam name := ⟨(takeName_eq_some_iff.mp htake).2.1, hreserved⟩
      have htrue : name ≠ ['t', 'r', 'u', 'e'] := by
        rintro rfl
        exact hreserved (by simp [reserved])
      have hfalse : name ≠ ['f', 'a', 'l', 's', 'e'] := by
        rintro rfl
        exact hreserved (by simp [reserved])
      have hparam : (some (name, rest)).filter (fun (name, _) => !reserved.contains name) =
          some (name, rest) := by
        simp [Option.filter, hreserved]
      rw [hparam]
      simp [htrue, hfalse, hname.wordToken_eq, Token.atom?]

/-- Signs are no operands, and only one of them opens a condition in parentheses. -/
theorem atom?_of_readSign {c : Char} {t : Token} (h : readSign (c :: cs) = some (t, rest)) :
    t.atom? = none ∧ (t = .opening → c = '(') := by
  have hsigns : ∀ entry ∈ signs,
      entry.2.atom?.isNone = true ∧ (entry.2 = .opening → entry.1 = ['(']) := by decide
  obtain ⟨text, hmem, hcs⟩ := exists_sign_of_readSign h
  obtain ⟨hatom, hopening⟩ := hsigns _ hmem
  refine ⟨Option.isNone_iff_eq_none.mp hatom, ?_⟩
  intro ht
  have htext : text = ['('] := hopening ht
  rw [htext] at hcs
  cases hcs
  rfl

/-- An operand of one token is read where its token is. -/
theorem takeAtom_eq (cs : List Char) :
    takeAtom cs = (readToken cs).bind fun (t, rest) => t.atom?.map (·, rest) := by
  cases cs with
  | nil => rfl
  | cons c cs =>
    by_cases hquote : c = '"' ∨ c = '\''
    · rw [takeAtom, readToken, if_pos hquote, if_pos hquote]
      cases takeQuoted c cs <;> rfl
    by_cases hbracket : c = '['
    · rw [takeAtom, readToken, if_neg hquote, if_neg hquote, if_pos hbracket, if_pos hbracket]
      cases takeBracketed cs <;> rfl
    have hname : isNameStart c = false →
        takeTruth (c :: cs) = none ∧ takeParam (c :: cs) = none := by
      intro hstart
      have htake : takeName (c :: cs) = none := by simp [takeName, hstart]
      rw [takeTruth, takeParam, takeKeyword_eq_bind ['t', 'r', 'u', 'e'] rfl,
        takeKeyword_eq_bind ['f', 'a', 'l', 's', 'e'] rfl, htake]
      exact ⟨rfl, rfl⟩
    simp only [takeAtom, if_neg hquote, if_neg hbracket, Option.orElse_eq_orElse,
      Option.orElse_eq_or]
    by_cases hnumeral : c = '-' ∨ c.isDigit = true
    · have hstart : isNameStart c = false := by
        rcases hnumeral with rfl | hdigit
        · decide
        · exact isNameStart_eq_false_of_isDigit hdigit
      -- Only the number is tried with success, since no name starts here.
      rw [readToken_of_numeral hnumeral, takeNumber_map, (hname hstart).1, (hname hstart).2]
      simp
    · have hnone : takeNumber (c :: cs) = none := by
        rw [not_or, Bool.not_eq_true] at hnumeral
        exact takeNumber_eq_none hnumeral.1 hnumeral.2
      rw [hnone]
      cases hstart : isNameStart c with
      | true => simpa using takeTruth_orElse_takeParam hstart cs
      | false =>
        have hsign : isSignStart c = true := by
          simp_all [isSignStart]
        rw [(hname hstart).1, (hname hstart).2, readToken_of_isSignStart hsign]
        cases hread : readSign (c :: cs) with
        | none => rfl
        | some read => simp [(atom?_of_readSign hread).1]

/-! ### Operands -/

/-- Where an operand can start, its token is no boundary. -/
theorem atBoundary_eq_false {t : Token} (h : readToken cs = some (t, rest))
    (ht : t = .opening ∨ t.atom?.isSome = true) :
    atBoundary cs = false := by
  cases cs with
  | nil => cases h
  | cons c cs =>
    -- A sign that is an operand or opens one is the opening parenthesis.
    have hsign : isSignStart c = true → c = '(' := by
      intro hc
      rw [readToken_of_isSignStart hc] at h
      obtain ⟨hatom, hopening⟩ := atom?_of_readSign h
      rcases ht with ht | ht
      · exact hopening ht
      · rw [hatom] at ht
        cases ht
    have hboundary : ∀ d ∈ [')', '=', '<', '>', '&', '|', '≠', '≤', '≥', '!'],
        isSignStart d = true ∧ d ≠ '(' := by
      intro d hd
      have hall : [')', '=', '<', '>', '&', '|', '≠', '≤', '≥', '!'].all
          (fun d => isSignStart d && d != '(') = true := by decide
      simpa using List.all_eq_true.mp hall d hd
    -- A word for a connective would be the token itself.
    have hkeyword : ∀ word op, (word, .connective op) ∈ words →
        takeKeyword word (c :: cs) = none := by
      intro word op hword
      obtain ⟨hname, hstands⟩ := isName_of_mem_words hword
      cases htake : takeKeyword word (c :: cs) with
      | none => rfl
      | some rest' =>
        rw [readToken_of_takeName ((takeKeyword_eq_some_iff hname).mp htake), hstands] at h
        cases h
        rcases ht with ht | ht <;> cases ht
    have hequals : takeWord ['!', '='] (c :: cs) = none := by
      cases htake : takeWord ['!', '='] (c :: cs) with
      | none => rfl
      | some rest' =>
        cases takeWord_eq_some_iff.mp htake
        exact absurd (hsign (hboundary '!' (by simp)).1) (by decide)
    have hlist : [')', '=', '<', '>', '&', '|', '≠', '≤', '≥'].contains c = false := by
      cases hc : [')', '=', '<', '>', '&', '|', '≠', '≤', '≥'].contains c with
      | false => rfl
      | true =>
        have hmem : c ∈ [')', '=', '<', '>', '&', '|', '≠', '≤', '≥', '!'] := by
          have hmem := List.contains_iff_mem.mp hc
          exact List.mem_append_left ['!'] hmem
        obtain ⟨hstart, hopening⟩ := hboundary c hmem
        exact absurd (hsign hstart) hopening
    rw [atBoundary, hlist, hequals, hkeyword _ .all (by simp [words]),
      hkeyword _ .any (by simp [words])]
    rfl

/-- A condition in parentheses is one that a closing parenthesis follows. -/
theorem enclosed_eq_ok_iff {inner : Reader Expr} {e : Expr} :
    enclosed inner cs = .ok (e, rest) ↔
      ∃ mid, inner cs = .ok (e, mid) ∧ TokenAt mid .closing rest := by
  rw [enclosed]
  cases hinner : inner cs with
  | error stop => simp
  | ok read =>
    obtain ⟨e', mid⟩ := read
    simp only [tokenAt_closing_iff]
    constructor
    · intro h
      split at h
      · rename_i hclosing
        cases h
        exact ⟨mid, rfl, hclosing⟩
      · cases h
      · cases h
    · rintro ⟨mid', heq, hclosing⟩
      cases heq
      rw [hclosing]
      rfl

/-- An operand is a token that is one, or a condition in parentheses. -/
theorem operand_eq_ok_iff {inner : Reader Expr} {e : Expr} :
    operand inner cs = .ok (e, rest) ↔
      (∃ t, TokenAt cs t rest ∧ t.atom? = some e) ∨
        (∃ mid, TokenAt cs .opening mid ∧ enclosed inner mid = .ok (e, rest)) := by
  simp only [tokenAt_opening_iff]
  rw [operand]
  constructor
  · intro h
    split at h
    · cases h
    split at h
    · rename_i mid hopening
      exact Or.inr ⟨mid, hopening, h⟩
    · rw [takeAtom_eq] at h
      split at h
      · rename_i read hread
        cases h
        obtain ⟨⟨t, rest'⟩, htoken, hmap⟩ := Option.bind_eq_some_iff.mp hread
        obtain ⟨e', hatom, heq⟩ := Option.map_eq_some_iff.mp hmap
        cases heq
        exact Or.inl ⟨t, tokenAt_iff.mpr htoken, hatom⟩
      · cases h
  -- Neither kind of operand starts at a boundary, and only one starts with a parenthesis.
  · rintro (⟨t, htoken, hatom⟩ | ⟨mid, hopening, h⟩)
    · have hread := tokenAt_iff.mp htoken
      have hboundary := atBoundary_eq_false hread (Or.inr (by rw [hatom]; rfl))
      rw [hboundary]
      split
      · rename_i hboundary'
        cases hboundary'
      split
      · rename_i mid hopening
        rw [tokenAt_iff.mp (tokenAt_opening_iff.mpr hopening)] at hread
        cases hread
        cases hatom
      · rw [takeAtom_eq, hread]
        simp [hatom]
    · have hread := tokenAt_iff.mp (tokenAt_opening_iff.mpr hopening)
      have hboundary := atBoundary_eq_false hread (Or.inl rfl)
      rw [hboundary, hopening]
      exact h

end Phrasebook.Condition

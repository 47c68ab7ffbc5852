import Phrasebook.Proofs.Condition.Token
import Phrasebook.Proofs.Text.Characters

/-!
# Reading tokens of one shape

A token is a sign, a name alone or in brackets, a text in quotes or a number, and each shape has its
reader. For each shape the module proves that what is read off a text is spelled there, and that a
spelling at the front of a text is read at least to its end:

* `exists_sign_of_readSign` and `covers_readSign` for signs;
* `exists_quotedAs_of_takeQuoted` and `QuotedAs.takeQuoted_append` for texts in quotes;
* `takeParam_eq_some_iff` and `takeBracketed_eq_some_iff` for names;
* `exists_spelled_of_readNumeral`, `covers_integer` and `covers_float` for numbers.
-/

namespace Phrasebook.Condition

open Text Number

/-- The token that a name is: a word of the table, or else a parameter. -/
def wordToken (name : List Char) : Token :=
  (words.lookup name).getD (.param (String.ofList name))

/-- Reads a sign. -/
def readSign (cs : List Char) : Option (Token × List Char) :=
  signs.findSome? fun (spelling, t) => (takeWord spelling cs).map (t, ·)

/-- Reads a number without its minus sign, whether or not an integer fits. -/
def readUnsigned (negative : Bool) (cs : List Char) : Option (Token × List Char) :=
  match takeDigits cs with
  | none => none
  | some (whole, rest) =>
    match takeFraction rest with
    | none => some (.integer (if negative then -ofDigits whole else ofDigits whole), rest)
    | some (fraction, rest) =>
      let magnitude := Layout.double.ofDecimal (ofDigits (whole ++ fraction)) (-fraction.length)
      some (.literal (.float (.ofMagnitude negative magnitude)), rest)

/-- Reads a number. -/
def readNumeral (cs : List Char) : Option (Token × List Char) :=
  readUnsigned (takeMinus cs).1 (takeMinus cs).2

/-- Whether a text ends or goes on with a blank. -/
def Apart (rest : List Char) : Prop :=
  Stops (fun c => !isBlank c) rest

/-- `Covers read t text`: in front of any text, `text` is read at least to its end, and in front of
a blank or the end it is read as `t`. -/
def Covers (read : List Char → Option (Token × List Char)) (t : Token) (text : List Char) : Prop :=
  ∀ rest, ∃ t' rest', read (text ++ rest) = some (t', rest') ∧ rest'.length ≤ rest.length ∧
    (Apart rest → t' = t ∧ rest' = rest)

/-- A blank stops whatever is made of other characters. -/
theorem Apart.stops {p : Char → Bool} (hp : ∀ c, isBlank c = true → p c = false)
    {rest : List Char} (h : Apart rest) :
    Stops p rest := by
  cases rest with
  | nil => exact stops_nil
  | cons c rest =>
    have hblank : isBlank c = true := by simpa using stops_cons.mp h
    exact stops_cons.mpr (hp c hblank)

/-! ### Signs -/

/-- Taking a word takes exactly that word. -/
theorem takeWord_eq_some_iff {word cs rest : List Char} :
    takeWord word cs = some rest ↔ cs = word ++ rest := by
  induction word generalizing cs with
  | nil => simp [takeWord]
  | cons w word ih =>
    cases cs with
    | nil => simp [takeWord]
    | cons c cs =>
      by_cases hc : w = c
      · simp [takeWord, hc, ih]
      · simp [takeWord, hc, Ne.symm hc]

/-- A sign that is read is one of the table. -/
theorem exists_sign_of_readSign {cs rest : List Char} {t : Token}
    (h : readSign cs = some (t, rest)) :
    ∃ text, (text, t) ∈ signs ∧ cs = text ++ rest := by
  obtain ⟨⟨text, u⟩, hmem, hread⟩ := List.exists_of_findSome?_eq_some h
  obtain ⟨rest', htake, heq⟩ := Option.map_eq_some_iff.mp hread
  cases heq
  exact ⟨text, hmem, takeWord_eq_some_iff.mp htake⟩

/-- In a table where no spelling begins a later one, the first spelling at the front of a text is
the longest. -/
theorem findSome?_takeWord {table : List (List Char × Token)}
    (htable : table.Pairwise fun a b => ¬ a.1 <+: b.1) {text : List Char} {t : Token}
    (hmem : (text, t) ∈ table) (rest : List Char) :
    ∃ more t' rest', (text ++ more, t') ∈ table ∧ rest = more ++ rest' ∧ (more = [] → t' = t) ∧
      table.findSome? (fun (spelling, u) => (takeWord spelling (text ++ rest)).map (u, ·)) =
        some (t', rest') := by
  induction table with
  | nil => cases hmem
  | cons entry table ih =>
    obtain ⟨spelling, u⟩ := entry
    obtain ⟨hfirst, hmore⟩ := List.pairwise_cons.mp htable
    rw [List.findSome?_cons]
    -- The first entry is the one of `text`, or it is tried before that one.
    rcases List.mem_cons.mp hmem with heq | hmem
    · cases heq
      refine ⟨[], t, rest, by simp, rfl, fun _ => rfl, ?_⟩
      simp [takeWord_eq_some_iff.mpr rfl]
    · cases htake : takeWord spelling (text ++ rest) with
      | none =>
        obtain ⟨more, t', rest', hmem', hrest, hsame, hread⟩ := ih hmore hmem
        refine ⟨more, t', rest', List.mem_cons_of_mem _ hmem', hrest, hsame, ?_⟩
        simp only [htake, Option.map_none]
        exact hread
      | some rest' =>
        -- The spelling of this entry and `text` begin the same text, so one begins the other.
        rcases List.append_eq_append_iff.mp (takeWord_eq_some_iff.mp htake) with
          ⟨more, hentry, hrest⟩ | ⟨more, htext, -⟩
        · refine ⟨more, u, rest', ?_, hrest, ?_, ?_⟩
          · rw [← hentry]
            exact List.mem_cons_self
          · rintro rfl
            exact absurd ⟨[], by simp [hentry]⟩ (hfirst _ hmem)
          · simp only [htake, Option.map_some]
        · exact absurd ⟨more, htext.symm⟩ (hfirst _ hmem)

/-- A sign of the table is read at least to its end. -/
theorem covers_readSign {text : List Char} {t : Token} (hmem : (text, t) ∈ signs) :
    Covers readSign t text := by
  intro rest
  have htable : signs.Pairwise fun a b => ¬ a.1 <+: b.1 := by decide
  have hblanks : ∀ entry ∈ signs, entry.1.all (!isBlank ·) = true := by decide
  obtain ⟨more, t', rest', hmem', rfl, hsame, hread⟩ := findSome?_takeWord htable hmem rest
  refine ⟨t', rest', hread, by simp, ?_⟩
  intro hapart
  -- A longer sign would go on after `text` with a character that is no blank.
  cases more with
  | nil => exact ⟨hsame rfl, rfl⟩
  | cons c more =>
    have hblank : (!isBlank c) = true := List.all_eq_true.mp (hblanks _ hmem') c (by simp)
    simp [Apart, hblank] at hapart

/-! ### Texts in quotes -/

/-- No quote is a backslash. -/
theorem ne_backslash_of_quote {quote : Char} (h : quote = '"' ∨ quote = '\'') :
    quote ≠ '\\' := by
  rcases h with rfl | rfl <;> decide

/-- What is read between quotes is written there, up to the closing quote. -/
theorem exists_quotedAs_of_takeQuoted {quote : Char} {cs text rest : List Char}
    (h : takeQuoted quote cs = some (text, rest)) :
    ∃ written, cs = written ++ quote :: rest ∧ QuotedAs quote text written := by
  fun_induction takeQuoted quote cs generalizing text with
  | case1 => cases h
  | case2 => cases h
  | case3 c cs ih =>
    obtain ⟨⟨text', rest'⟩, hread, heq⟩ := Option.map_eq_some_iff.mp h
    cases heq
    obtain ⟨written, rfl, hwritten⟩ := ih hread
    exact ⟨'\\' :: c :: written, rfl, .escaped hwritten⟩
  | case4 c cs =>
    cases h
    exact ⟨[], rfl, .nil⟩
  | case5 c cs hnot hescape hquote ih =>
    obtain ⟨⟨text', rest'⟩, hread, heq⟩ := Option.map_eq_some_iff.mp h
    cases heq
    obtain ⟨written, rfl, hwritten⟩ := ih hread
    refine ⟨c :: written, rfl, .plain hquote ?_ hwritten⟩
    -- A backslash is read by an earlier case, since the closing quote at least comes after it.
    rintro rfl
    cases hcs : written ++ quote :: rest with
    | nil => exact hnot rfl hcs
    | cons d ds => exact hescape d ds rfl hcs

/-- What is written between quotes is read up to the closing quote. -/
theorem QuotedAs.takeQuoted_append {quote : Char} (hquote : quote ≠ '\\') {text written : List Char}
    (h : QuotedAs quote text written) (rest : List Char) :
    takeQuoted quote (written ++ quote :: rest) = some (text, rest) := by
  induction h with
  | nil => simp [takeQuoted, hquote]
  | plain hc hescape _ ih => simp [takeQuoted, hc, hescape, ih]
  | escaped _ ih => simp [takeQuoted, ih]

/-! ### Names -/

/-- A name is a word of the table or names a parameter. -/
theorem spelled_wordToken {name : List Char} (h : isName name = true) :
    Spelled (wordToken name) name := by
  rw [wordToken]
  cases hword : words.lookup name with
  | none =>
    -- The lookup passed over every entry, so the name is in none of them.
    refine .bare ⟨h, ?_⟩
    intro hmem
    obtain ⟨entry, hentry, rfl⟩ := List.mem_map.mp hmem
    have hdiffers := List.lookup_eq_none_iff.mp hword entry hentry
    simp at hdiffers
  | some t =>
    obtain ⟨before, after, hsplit, -⟩ := List.lookup_eq_some_iff.mp hword
    exact .word (by rw [hsplit]; simp)

/-- What names a parameter is no word of the table. -/
theorem NamesParam.wordToken_eq {name : List Char} (h : NamesParam name) :
    wordToken name = .param (String.ofList name) := by
  have hnone : words.lookup name = none := by
    refine List.lookup_eq_none_iff.mpr fun entry hentry => ?_
    have hne : name ≠ entry.1 := by
      rintro rfl
      exact h.2 (List.mem_map_of_mem hentry)
    simpa using hne
  rw [wordToken, hnone, Option.getD_none]

/-- The words of the table are names and stand for their tokens. -/
theorem isName_of_mem_words {name : List Char} {t : Token} (h : (name, t) ∈ words) :
    isName name = true ∧ wordToken name = t := by
  have hwords : ∀ entry ∈ words, isName entry.1 = true ∧ wordToken entry.1 = entry.2 := by decide
  exact hwords _ h

/-- The words that are reserved are those of the table. -/
theorem map_fst_words : words.map Prod.fst = reserved :=
  rfl

/-- A parameter is taken where a name is that is no word of the table. -/
theorem takeParam_eq_some_iff {cs name rest : List Char} :
    takeParam cs = some (name, rest) ↔
      cs = name ++ rest ∧ NamesParam name ∧ Stops isNameRest rest := by
  rw [takeParam, Option.filter_eq_some_iff, takeName_eq_some_iff, NamesParam, map_fst_words]
  simp only [Bool.not_eq_true', List.contains_eq_mem, decide_eq_false_iff_not]
  constructor
  · rintro ⟨⟨hcs, hname, hrest⟩, hfree⟩
    exact ⟨hcs, ⟨hname, hfree⟩, hrest⟩
  · rintro ⟨hcs, ⟨hname, hfree⟩, hrest⟩
    exact ⟨⟨hcs, hname, hrest⟩, hfree⟩

/-- No bracket continues a name or is a blank. -/
theorem closes_bracket (rest : List Char) :
    Stops isNameRest (']' :: rest) ∧ Stops isBlank (']' :: rest) := by
  refine ⟨stops_cons.mpr ?_, stops_cons.mpr ?_⟩ <;> decide

/-- Blanks in front of a text keep a name from going on if the text does. -/
theorem stops_isNameRest_append {after cs : List Char} (hafter : ∀ c ∈ after, isBlank c = true)
    (hcs : Stops isNameRest cs) :
    Stops isNameRest (after ++ cs) := by
  cases after with
  | nil => exact hcs
  | cons c after =>
    exact stops_cons.mpr (isNameRest_eq_false_of_isBlank (hafter c List.mem_cons_self))

/-- A name does not begin with a blank. -/
theorem stops_isBlank_append {name : List Char} (h : isName name = true) (cs : List Char) :
    Stops isBlank (name ++ cs) := by
  cases name with
  | nil => cases h
  | cons c name =>
    refine stops_cons.mpr ?_
    cases hblank : isBlank c with
    | false => rfl
    | true =>
      have hrest := isNameRest_of_mem_of_isName h List.mem_cons_self
      rw [isNameRest_eq_false_of_isBlank hblank] at hrest
      cases hrest

/-- What is read in brackets is a name with blanks around it. -/
theorem takeBracketed_eq_some_iff {cs name rest : List Char} :
    takeBracketed cs = some (name, rest) ↔
      ∃ before after, (∀ c ∈ before, isBlank c = true) ∧ NamesParam name ∧
        (∀ c ∈ after, isBlank c = true) ∧
        cs = before ++ (name ++ (after ++ ']' :: rest)) := by
  constructor
  · intro h
    rw [takeBracketed] at h
    split at h
    · cases h
    · rename_i name' rest' hparam
      obtain ⟨hcs, hname, -⟩ := takeParam_eq_some_iff.mp hparam
      split at h
      · rename_i rest'' hclosed
        cases h
        obtain ⟨before, hbefore, hsplit⟩ := exists_blanks cs
        obtain ⟨after, hafter, hsplit'⟩ := exists_blanks rest'
        refine ⟨before, after, hbefore, hname, hafter, ?_⟩
        rw [hsplit, hcs, hsplit', hclosed]
      · cases h
  · rintro ⟨before, after, hbefore, hname, hafter, rfl⟩
    -- The name ends at a blank or at the bracket, and the blanks after it end at the bracket.
    obtain ⟨hends, hblank⟩ := closes_bracket rest
    have hparam : takeParam (name ++ (after ++ ']' :: rest)) = some (name, after ++ ']' :: rest) :=
      takeParam_eq_some_iff.mpr ⟨rfl, hname, stops_isNameRest_append hafter hends⟩
    rw [takeBracketed, skipBlanks_append hbefore,
      skipBlanks_of_stops (stops_isBlank_append hname.1 _), hparam]
    dsimp only
    rw [skipBlanks_append hafter, skipBlanks_of_stops hblank]
    rfl

/-! ### Numbers -/

/-- Digits are a first digit and further ones. -/
theorem IsDigits.exists_cons {digits : List Char} (h : IsDigits digits) :
    ∃ c more, digits = c :: more ∧ c.isDigit = true := by
  obtain ⟨hne, hdigits⟩ := h
  cases digits with
  | nil => exact absurd rfl hne
  | cons c more => exact ⟨c, more, rfl, hdigits c List.mem_cons_self⟩

/-- The minus sign is taken off the front of a number. -/
theorem takeMinus_append {digits : List Char} (h : IsDigits digits) (negative : Bool)
    (cs : List Char) :
    takeMinus (minus negative ++ (digits ++ cs)) = (negative, digits ++ cs) := by
  obtain ⟨c, more, rfl, hc⟩ := h.exists_cons
  have hsign : c ≠ '-' :=
    forall_isDigit (P := fun c => c ≠ '-') (by decide) hc
  cases negative with
  | true => rfl
  | false => simp [minus, takeMinus, hsign]

/-- Taking a minus sign takes exactly that. -/
theorem eq_minus_append (cs : List Char) :
    cs = minus (takeMinus cs).1 ++ (takeMinus cs).2 := by
  rw [takeMinus.eq_def]
  split <;> rfl

/-- The sign of a number without a plus is its minus sign. -/
theorem takeSign_append {digits : List Char} (h : IsDigits digits) (negative : Bool)
    (cs : List Char) :
    takeSign (minus negative ++ (digits ++ cs)) = (negative, digits ++ cs) := by
  obtain ⟨c, more, rfl, hc⟩ := h.exists_cons
  have hsign : c ≠ '-' ∧ c ≠ '+' :=
    forall_isDigit (P := fun c => c ≠ '-' ∧ c ≠ '+') (by decide) hc
  cases negative with
  | true => rfl
  | false => simp [minus, takeSign, hsign]

/-- No text that begins with a digit is one of the words for special numbers. -/
theorem map_toLower_ne {digits : List Char} (h : IsDigits digits) (cs : List Char) :
    ∀ word ∈ ["inf", "infinity", "nan"],
      String.ofList ((digits ++ cs).map Char.toLower) ≠ word := by
  obtain ⟨c, more, rfl, hc⟩ := h.exists_cons
  have hlower : c.toLower ≠ 'i' ∧ c.toLower ≠ 'n' :=
    forall_isDigit (P := fun c => c.toLower ≠ 'i' ∧ c.toLower ≠ 'n') (by decide) hc
  -- Lower case leads from no digit to the letters that the words begin with.
  intro word hword heq
  have hhead : word.toList.head? = some c.toLower := by
    rw [← heq]
    simp
  simp only [List.mem_cons, List.not_mem_nil, or_false] at hword
  rcases hword with rfl | rfl | rfl <;> simp [hlower.1.symm, hlower.2.symm] at hhead

/-- A number with a point is read like any text that is read as a number. -/
theorem readBinary64_decimal {whole fraction : List Char} (hwhole : IsDigits whole)
    (hfraction : IsDigits fraction) (negative : Bool) :
    readBinary64 (minus negative ++ (whole ++ '.' :: fraction)) =
      some (.ofMagnitude negative
        (Layout.double.ofDecimal (ofDigits (whole ++ fraction)) (-fraction.length))) := by
  -- The text is no special word, has no exponent and has both parts of a decimal number.
  have hwords := map_toLower_ne hwhole ('.' :: fraction)
  have hpoint : Stops Char.isDigit ('.' :: fraction) := stops_cons.mpr (by decide)
  have hdecimal : readDecimal (whole ++ '.' :: fraction) =
      some (ofDigits (whole ++ fraction), -(fraction.length : Int)) := by
    have hread : (fraction.takeWhile Char.isDigit, fraction.dropWhile Char.isDigit) =
        (fraction, []) := by
      have htake := takeWhile_append_of_stops hfraction.2 stops_nil
      have hdrop := dropWhile_append_of_stops hfraction.2 stops_nil
      rw [List.append_nil] at htake hdrop
      rw [htake, hdrop]
    simp only [readDecimal, takeWhile_append_of_stops hwhole.2 hpoint,
      dropWhile_append_of_stops hwhole.2 hpoint, hread, readExponent]
    simp [hwhole.1]
  rw [readBinary64, readMagnitude, takeSign_append hwhole]
  simp only [hdecimal, beq_iff_eq, hwords, List.mem_cons, true_or, or_true, if_false,
    Bool.or_eq_true, or_self]
  simp

/-- Taking a fraction takes a point and the longest run of digits. -/
theorem takeFraction_eq_some_iff {cs fraction rest : List Char} :
    takeFraction cs = some (fraction, rest) ↔
      cs = '.' :: (fraction ++ rest) ∧ IsDigits fraction ∧ Stops Char.isDigit rest := by
  rw [takeFraction.eq_def]
  -- Either side holds only of a text that begins with a point.
  split
  · rename_i cs
    rw [takeDigits_eq_some_iff]
    constructor
    · rintro ⟨rfl, hne, hdigits, hrest⟩
      exact ⟨rfl, ⟨hne, hdigits⟩, hrest⟩
    · rintro ⟨heq, ⟨hne, hdigits⟩, hrest⟩
      cases heq
      exact ⟨rfl, hne, hdigits, hrest⟩
  · rename_i hpoint
    constructor
    · intro h
      cases h
    · rintro ⟨rfl, -⟩
      exact absurd rfl (hpoint _)

/-- Digits at the front of a text are taken with the digits that follow them. -/
theorem IsDigits.takeDigits_append {digits : List Char} (h : IsDigits digits) (rest : List Char) :
    takeDigits (digits ++ rest) =
      some (digits ++ rest.takeWhile Char.isDigit, rest.dropWhile Char.isDigit) := by
  refine takeDigits_eq_some_iff.mpr ⟨?_, ?_, ?_, stops_dropWhile _ _⟩
  · rw [List.append_assoc, List.takeWhile_append_dropWhile]
  · simp [h.1]
  · intro c hc
    rcases List.mem_append.mp hc with hc | hc
    · exact h.2 c hc
    · exact List.all_eq_true.mp List.all_takeWhile c hc

/-- No fraction follows before a blank or the end. -/
theorem takeFraction_of_apart {rest : List Char} (hapart : Apart rest) :
    takeFraction rest = none := by
  have hpoint : Stops (· == '.') rest := hapart.stops (by
    intro c hc
    simp only [beq_eq_false_iff_ne]
    rintro rfl
    revert hc
    decide)
  cases rest with
  | nil => rfl
  | cons c rest =>
    have hc : c ≠ '.' := by simpa using stops_cons.mp hpoint
    simp [takeFraction, hc]

/-- What follows a fraction is shorter. -/
theorem length_le_of_takeFraction {cs fraction rest : List Char}
    (h : takeFraction cs = some (fraction, rest)) :
    rest.length ≤ cs.length := by
  obtain ⟨rfl, -⟩ := takeFraction_eq_some_iff.mp h
  simp
  omega

/-- A number that is read is spelled there. -/
theorem exists_spelled_of_readNumeral {cs rest : List Char} {t : Token}
    (h : readNumeral cs = some (t, rest)) :
    ∃ text, cs = text ++ rest ∧ Spelled t text := by
  obtain ⟨negative, unsigned, hminus⟩ : ∃ negative unsigned, takeMinus cs = (negative, unsigned) :=
    ⟨_, _, rfl⟩
  have hcs := eq_minus_append cs
  rw [readNumeral, readUnsigned, hminus] at h
  rw [hminus] at hcs
  dsimp only at h hcs
  split at h
  · cases h
  · rename_i whole rest' hwhole
    obtain ⟨rfl, hne, hdigits, -⟩ := takeDigits_eq_some_iff.mp hwhole
    -- A fraction tells the two kinds of numbers apart.
    split at h
    · cases h
      exact ⟨minus negative ++ whole, by rw [hcs, List.append_assoc], .integer ⟨hne, hdigits⟩⟩
    · rename_i fraction rest'' hfraction
      cases h
      obtain ⟨rfl, hfraction', -⟩ := takeFraction_eq_some_iff.mp hfraction
      refine ⟨minus negative ++ (whole ++ '.' :: fraction), by rw [hcs]; simp, ?_⟩
      exact .float ⟨hne, hdigits⟩ hfraction' (readBinary64_decimal ⟨hne, hdigits⟩ hfraction' _)

/-- An integer is read at least to its last digit. -/
theorem covers_integer {digits : List Char} (h : IsDigits digits) (negative : Bool) :
    Covers readNumeral (.integer (if negative then -ofDigits digits else ofDigits digits))
      (minus negative ++ digits) := by
  intro rest
  rw [List.append_assoc, readNumeral, takeMinus_append h, readUnsigned, h.takeDigits_append]
  dsimp only
  -- More digits and a fraction may be read after those of `digits`, but not after a blank.
  have hshort : (rest.dropWhile Char.isDigit).length ≤ rest.length :=
    (List.dropWhile_sublist Char.isDigit).length_le
  have hapart : Apart rest →
      rest.takeWhile Char.isDigit = [] ∧ rest.dropWhile Char.isDigit = rest := by
    intro hapart
    have hstops : Stops Char.isDigit rest := hapart.stops fun _ => isDigit_eq_false_of_isBlank
    exact ⟨takeWhile_of_stops hstops, dropWhile_of_stops hstops⟩
  cases hfraction : takeFraction (rest.dropWhile Char.isDigit) with
  | none =>
    refine ⟨_, _, rfl, hshort, ?_⟩
    intro h'
    rw [(hapart h').1, (hapart h').2, List.append_nil]
    exact ⟨rfl, rfl⟩
  | some taken =>
    obtain ⟨fraction, rest'⟩ := taken
    refine ⟨_, _, rfl, Nat.le_trans (length_le_of_takeFraction hfraction) hshort, ?_⟩
    intro h'
    rw [(hapart h').2, takeFraction_of_apart h'] at hfraction
    cases hfraction

/-- A number with a point is read at least to its last digit. -/
theorem covers_float {whole fraction : List Char} {negative : Bool} {x : Binary64}
    (hwhole : IsDigits whole) (hfraction : IsDigits fraction)
    (hvalue : readBinary64 (minus negative ++ (whole ++ '.' :: fraction)) = some x) :
    Covers readNumeral (.literal (.float x)) (minus negative ++ (whole ++ '.' :: fraction)) := by
  intro rest
  have hpoint : takeDigits (whole ++ '.' :: (fraction ++ rest)) =
      some (whole, '.' :: (fraction ++ rest)) :=
    takeDigits_eq_some_iff.mpr ⟨rfl, hwhole.1, hwhole.2, stops_cons.mpr (by decide)⟩
  -- The value of the spelling is the one that the reader computes from the digits.
  rw [readBinary64_decimal hwhole hfraction] at hvalue
  cases hvalue
  rw [List.append_assoc, List.append_assoc, List.cons_append, readNumeral,
    takeMinus_append hwhole, readUnsigned, hpoint]
  dsimp only
  rw [takeFraction, hfraction.takeDigits_append]
  refine ⟨_, _, rfl, (List.dropWhile_sublist Char.isDigit).length_le, ?_⟩
  intro hapart
  have hstops : Stops Char.isDigit rest := hapart.stops fun _ => isDigit_eq_false_of_isBlank
  rw [takeWhile_of_stops hstops, dropWhile_of_stops hstops, List.append_nil]
  exact ⟨rfl, rfl⟩

end Phrasebook.Condition

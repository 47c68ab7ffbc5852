import Phrasebook.Text.Blank
import Phrasebook.Text.Name
import Phrasebook.Text.Take

/-!
# Classes of characters

Blanks, digits and the characters of names keep apart as far as the readers need it, so the first
character of a token tells its shape and a blank ends it. The module proves:

* `isNameRest_eq_false_of_isBlank`: no blank continues a name;
* `isNameStart_eq_false_of_isDigit`: no digit starts a name, though every digit continues one;
* what `skipBlanks`, `takeName` and `takeDigits` take off a text that is given in two parts.
-/

namespace Phrasebook.Text

/-! ### Classes -/

/-- The code points of the blanks. -/
def blankCodes : List Nat :=
  [0x9, 0xA, 0xB, 0xC, 0xD, 0x20, 0x85, 0xA0, 0x1680, 0x2000, 0x2001, 0x2002, 0x2003, 0x2004,
   0x2005, 0x2006, 0x2007, 0x2008, 0x2009, 0x200A, 0x2028, 0x2029, 0x202F, 0x205F, 0x3000]

/-- The list of code points holds every blank. -/
theorem toNat_mem_blankCodes {c : Char} (h : isBlank c = true) :
    c.toNat ∈ blankCodes := by
  simp only [isBlank, Bool.or_eq_true, Bool.and_eq_true, decide_eq_true_eq, beq_iff_eq] at h
  simp only [blankCodes, List.mem_cons, List.not_mem_nil, or_false]
  omega

/-- No blank is a letter, a numeral or an underscore. -/
theorem isNameRest_eq_false_of_isBlank {c : Char} (h : isBlank c = true) :
    isNameRest c = false := by
  -- The classes of names are tables of ranges, so each of the few blanks is looked up in them.
  have hcodes : ∀ n ∈ blankCodes, isNameRest (Char.ofNat n) = false := by decide +kernel
  rw [← Char.ofNat_toNat c]
  exact hcodes _ (toNat_mem_blankCodes h)

/-- What starts a name continues one. -/
theorem isNameRest_of_isNameStart {c : Char} (h : isNameStart c = true) :
    isNameRest c = true := by
  rcases (Bool.or_eq_true _ _).mp h with hletter | hline
  · simp [isNameRest, hletter]
  · simp [isNameRest, hline]

/-- The code points of the digits. -/
theorem toNat_of_isDigit {c : Char} (h : c.isDigit = true) :
    0x30 ≤ c.toNat ∧ c.toNat ≤ 0x39 := by
  simp only [Char.isDigit, Bool.and_eq_true, decide_eq_true_eq] at h
  exact ⟨UInt32.le_iff_toNat_le.mp h.1, UInt32.le_iff_toNat_le.mp h.2⟩

/-- What holds of the ten digits holds of every digit. -/
theorem forall_isDigit {P : Char → Prop} (h : ∀ n < 10, P (Char.ofNat (0x30 + n))) {c : Char}
    (hc : c.isDigit = true) :
    P c := by
  obtain ⟨hlow, hhigh⟩ := toNat_of_isDigit hc
  have hdigit := h (c.toNat - 0x30) (by omega)
  rwa [show 0x30 + (c.toNat - 0x30) = c.toNat by omega, Char.ofNat_toNat] at hdigit

/-- Every digit continues a name. -/
theorem isNameRest_of_isDigit {c : Char} (h : c.isDigit = true) :
    isNameRest c = true :=
  forall_isDigit (P := fun c => isNameRest c = true) (by decide) h

/-- No digit starts a name. -/
theorem isNameStart_eq_false_of_isDigit {c : Char} (h : c.isDigit = true) :
    isNameStart c = false :=
  forall_isDigit (P := fun c => isNameStart c = false) (by decide) h

/-- No blank is a digit. -/
theorem isDigit_eq_false_of_isBlank {c : Char} (h : isBlank c = true) :
    c.isDigit = false := by
  cases hdigit : c.isDigit with
  | false => rfl
  | true =>
    have hrest := isNameRest_of_isDigit hdigit
    rw [isNameRest_eq_false_of_isBlank h] at hrest
    cases hrest

/-! ### Runs of one class -/

section Runs

variable {α : Type} {p : α → Bool} {run rest : List α}

/-- No element with `p` comes first in the list. -/
def Stops (p : α → Bool) (rest : List α) : Prop :=
  ∀ a ∈ rest.head?, p a = false

/-- The end of a list stops every run. -/
@[simp]
theorem stops_nil : Stops p [] := by
  intro a ha
  cases ha

/-- A list stops a run if its first element does. -/
@[simp]
theorem stops_cons {a : α} : Stops p (a :: rest) ↔ p a = false := by
  simp [Stops]

/-- A run ends where the rest of the list stops it. -/
theorem takeWhile_append_of_stops (hrun : ∀ a ∈ run, p a = true) (hrest : Stops p rest) :
    (run ++ rest).takeWhile p = run := by
  rw [List.takeWhile_append_of_pos hrun]
  cases rest with
  | nil => simp
  | cons a rest => simp [stops_cons.mp hrest]

/-- What is left after a run is the rest of the list that stops it. -/
theorem dropWhile_append_of_stops (hrun : ∀ a ∈ run, p a = true) (hrest : Stops p rest) :
    (run ++ rest).dropWhile p = rest := by
  rw [List.dropWhile_append_of_pos hrun]
  cases rest with
  | nil => simp
  | cons a rest => simp [stops_cons.mp hrest]

/-- A list that stops a run has none at its front. -/
theorem takeWhile_of_stops (h : Stops p rest) :
    rest.takeWhile p = [] := by
  have hnone : ∀ a ∈ ([] : List _), p a = true := by simp
  exact takeWhile_append_of_stops hnone h

/-- A list that stops a run is left as it is. -/
theorem dropWhile_of_stops (h : Stops p rest) :
    rest.dropWhile p = rest := by
  have hnone : ∀ a ∈ ([] : List _), p a = true := by simp
  exact dropWhile_append_of_stops hnone h

/-- What is left after the longest run stops it. -/
theorem stops_dropWhile (p : α → Bool) (as : List α) :
    Stops p (as.dropWhile p) := by
  induction as with
  | nil => simp
  | cons a as ih =>
    by_cases ha : p a = true
    · rwa [List.dropWhile_cons_of_pos ha]
    · rw [List.dropWhile_cons_of_neg ha]
      simpa using ha

end Runs

/-! ### Taking a run -/

/-- A text is blanks and what is left without them. -/
theorem exists_blanks (cs : List Char) :
    ∃ before, (∀ c ∈ before, isBlank c = true) ∧ cs = before ++ skipBlanks cs :=
  ⟨cs.takeWhile isBlank, fun _ hc => List.all_eq_true.mp List.all_takeWhile _ hc,
    List.takeWhile_append_dropWhile.symm⟩

/-- Blanks in front of a text are skipped. -/
theorem skipBlanks_append {before : List Char} (h : ∀ c ∈ before, isBlank c = true)
    (cs : List Char) :
    skipBlanks (before ++ cs) = skipBlanks cs :=
  List.dropWhile_append_of_pos h

/-- Nothing is left of blanks. -/
theorem skipBlanks_eq_nil {cs : List Char} (h : ∀ c ∈ cs, isBlank c = true) :
    skipBlanks cs = [] := by
  have hskip := skipBlanks_append h []
  rwa [List.append_nil] at hskip

/-- A text that does not begin with a blank is left as it is. -/
theorem skipBlanks_of_stops {cs : List Char} (h : Stops isBlank cs) :
    skipBlanks cs = cs :=
  dropWhile_of_stops h

/-- A name is a first character of names and further ones. -/
theorem isName_cons {c : Char} {cs : List Char} :
    isName (c :: cs) = true ↔ isNameStart c = true ∧ ∀ d ∈ cs, isNameRest d = true := by
  simp [isName]

/-- Every character of a name continues names. -/
theorem isNameRest_of_mem_of_isName {name : List Char} (h : isName name = true) {c : Char}
    (hc : c ∈ name) :
    isNameRest c = true := by
  cases name with
  | nil => cases hc
  | cons first more =>
    obtain ⟨hfirst, hmore⟩ := isName_cons.mp h
    rcases List.mem_cons.mp hc with rfl | hc
    · exact isNameRest_of_isNameStart hfirst
    · exact hmore c hc

/-- Taking a name takes the longest run that is one. -/
theorem takeName_eq_some_iff {cs name rest : List Char} :
    takeName cs = some (name, rest) ↔
      cs = name ++ rest ∧ isName name = true ∧ Stops isNameRest rest := by
  constructor
  · intro h
    cases cs with
    | nil => cases h
    | cons c cs =>
      rw [takeName] at h
      split at h
      · rename_i hstart
        cases h
        refine ⟨by simp, isName_cons.mpr ⟨hstart, ?_⟩, stops_dropWhile _ _⟩
        intro d hd
        exact List.all_eq_true.mp List.all_takeWhile _ hd
      · cases h
  -- The rest of the text does not continue the name, so the longest run is the name.
  · rintro ⟨rfl, hname, hrest⟩
    cases name with
    | nil => cases hname
    | cons c name =>
      obtain ⟨hstart, hmore⟩ := isName_cons.mp hname
      rw [List.cons_append, takeName, if_pos hstart, takeWhile_append_of_stops hmore hrest,
        dropWhile_append_of_stops hmore hrest]

/-- Taking digits takes the longest run of them. -/
theorem takeDigits_eq_some_iff {cs digits rest : List Char} :
    takeDigits cs = some (digits, rest) ↔
      cs = digits ++ rest ∧ digits ≠ [] ∧ (∀ c ∈ digits, c.isDigit = true) ∧
        Stops Char.isDigit rest := by
  constructor
  · intro h
    rw [takeDigits] at h
    split at h
    · cases h
    · rename_i hne
      cases h
      refine ⟨List.takeWhile_append_dropWhile.symm, hne, ?_, stops_dropWhile _ _⟩
      intro c hc
      exact List.all_eq_true.mp List.all_takeWhile _ hc
  · rintro ⟨rfl, hne, hdigits, hrest⟩
    rw [takeDigits, takeWhile_append_of_stops hdigits hrest,
      dropWhile_append_of_stops hdigits hrest]
    cases digits with
    | nil => exact absurd rfl hne
    | cons c digits => rfl

end Phrasebook.Text

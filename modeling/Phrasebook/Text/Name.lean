import Phrasebook.Text.Alphabetic
import Phrasebook.Text.Numeric

/-!
# Names

A name is a letter or an underscore followed by letters, numerals and underscores. Parameters are
called by names, in placeholders and in conditions alike.
-/

namespace Phrasebook.Text

/-- Whether a character can start a name. -/
def isNameStart (c : Char) : Bool :=
  isAlphabetic c || c == '_'

/-- Whether a character can continue a name. -/
def isNameRest (c : Char) : Bool :=
  isAlphabetic c || isNumeric c || c == '_'

/-- Splits the longest name off the front of a text. -/
def takeName : List Char → Option (List Char × List Char)
  | [] => none
  | c :: cs =>
    if isNameStart c then some (c :: cs.takeWhile isNameRest, cs.dropWhile isNameRest) else none

/-- A name takes at least one character off the text. -/
theorem length_lt_of_takeName {cs name rest : List Char} (h : takeName cs = some (name, rest)) :
    rest.length < cs.length := by
  cases cs with
  | nil => simp [takeName] at h
  | cons c cs =>
    rw [takeName] at h
    split at h
    · cases h
      exact Nat.lt_succ_of_le (List.dropWhile_sublist isNameRest).length_le
    · cases h

/-- Whether a text is a name. -/
def isName (cs : List Char) : Bool :=
  match cs with
  | [] => false
  | c :: cs => isNameStart c && cs.all isNameRest

end Phrasebook.Text

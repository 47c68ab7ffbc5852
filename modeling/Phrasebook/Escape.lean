/-!
# Escapes

An escape set says how to write certain characters of a text parameter. Characters outside the set
are written as they are.
-/

namespace Phrasebook

/-- Replacements for characters; a character has at most one. -/
structure EscapeSet where
  /-- The characters with their replacements. -/
  replacements : List (Char × String) := []
  deriving DecidableEq

namespace EscapeSet

/-- The set that leaves every character alone. -/
def none : EscapeSet := {}

/-- The replacement of a character. -/
def replacement? (set : EscapeSet) (c : Char) : Option String :=
  set.replacements.lookup c

/-- Adds a replacement, over any earlier one of the same character. -/
def add (set : EscapeSet) (c : Char) (text : String) : EscapeSet :=
  ⟨set.replacements.filter (fun entry => entry.1 != c) ++ [(c, text)]⟩

/-- Both sets together; where they differ the second counts. -/
def union (set other : EscapeSet) : EscapeSet :=
  other.replacements.foldl (fun set (c, text) => set.add c text) set

/-- Whether the set replaces nothing. -/
def isEmpty (set : EscapeSet) : Bool :=
  set.replacements.isEmpty

/-- The entities of markup for ampersand, angle brackets and quotes. -/
def html : EscapeSet :=
  ⟨[('&', "&amp;"), ('<', "&lt;"), ('>', "&gt;"), ('"', "&quot;"), ('\'', "&#39;")]⟩

/-- Writes the control characters below the space by their code points in hexadecimal. -/
def control : EscapeSet :=
  ⟨(List.range 0x20).map fun n =>
    (Char.ofNat n, String.ofList (['\\', 'u', '\x7b'] ++ Nat.toDigits 16 n ++ ['\x7d']))⟩

/-- The text of one character. -/
def escapeChar (set : EscapeSet) (c : Char) : List Char :=
  match set.replacement? c with
  | some text => text.toList
  | Option.none => [c]

/-- The text with every replacement made. A text without characters to replace is given back as it
is. -/
def escape (set : EscapeSet) (s : String) : String :=
  if s.toList.any fun c => (set.replacement? c).isSome then
    String.ofList (s.toList.flatMap set.escapeChar)
  else s

/-- To give a text back is the same as to go through it without a replacement. -/
theorem escape_eq_flatMap (set : EscapeSet) (s : String) :
    set.escape s = String.ofList (s.toList.flatMap set.escapeChar) := by
  rw [escape]
  split
  · rfl
  · rename_i hany
    have hself : ∀ c ∈ s.toList, set.escapeChar c = [c] := by
      intro c hc
      have hnone : set.replacement? c = Option.none := Option.not_isSome_iff_eq_none.mp fun hsome =>
        hany (List.any_eq_true.mpr ⟨c, hc, hsome⟩)
      rw [escapeChar, hnone]
    rw [List.flatMap_def, List.map_congr_left hself, ← List.flatMap_def, List.flatMap_singleton',
      String.ofList_toList]

end EscapeSet

end Phrasebook

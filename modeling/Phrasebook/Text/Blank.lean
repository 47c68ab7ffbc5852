/-!
# Blanks

Two sets of blanks: the Unicode property `White_Space`, used inside conditions, and the five ASCII
blanks, used inside placeholders.
-/

namespace Phrasebook.Text

/-- Whether a character has the Unicode property `White_Space`. -/
def isBlank (c : Char) : Bool :=
  let n := c.toNat
  (0x9 ≤ n && n ≤ 0xD) || n == 0x20 || n == 0x85 || n == 0xA0 || n == 0x1680 ||
    (0x2000 ≤ n && n ≤ 0x200A) || n == 0x2028 || n == 0x2029 || n == 0x202F || n == 0x205F ||
    n == 0x3000

/-- Whether a character is a space, a tab, a line feed, a form feed or a carriage return. -/
def isAsciiBlank (c : Char) : Bool :=
  c == ' ' || c == '\t' || c == '\n' || c == '\x0C' || c == '\r'

/-- The text without its leading blanks. -/
def skipBlanks (cs : List Char) : List Char :=
  cs.dropWhile isBlank

/-- The text without its leading ASCII blanks. -/
def skipAsciiBlanks (cs : List Char) : List Char :=
  cs.dropWhile isAsciiBlank

/-- Skipping ASCII blanks never lengthens a text. -/
theorem length_skipAsciiBlanks_le (cs : List Char) : (skipAsciiBlanks cs).length ≤ cs.length :=
  (List.dropWhile_sublist isAsciiBlank).length_le

/-- The text without blanks at either end. -/
def trim (s : String) : String :=
  String.ofList (((s.toList.dropWhile isBlank).reverse.dropWhile isBlank).reverse)

end Phrasebook.Text

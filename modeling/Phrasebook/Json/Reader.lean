import Phrasebook.Json.Number

/-!
# Reading JSON

The strict grammar: no comments, no trailing commas, no control characters in strings. Containers
may nest a fixed number of levels; each level is a reader made from the reader of the level below
it.
-/

namespace Phrasebook.Json

open Text

/-- How deep containers may nest. -/
def maxDepth : Nat := 127

/-- A reader takes what it reads off the front of a text. -/
abbrev Reader (α : Type) := List Char → Option (α × List Char)

/-- Whether a character may stand between tokens. -/
def isSpace (c : Char) : Bool :=
  c == ' ' || c == '\t' || c == '\n' || c == '\r'

/-- The text without its leading blanks. -/
def skipSpace (cs : List Char) : List Char :=
  cs.dropWhile isSpace

/-- Reads a character after a backslash and `u`: one unit, or the two halves of a pair. A half that
stands alone is refused. -/
def takeUnicode (cs : List Char) : Option (Char × List Char) := do
  let (unit, cs) ← takeHex 4 0 cs
  if 0xDC00 ≤ unit ∧ unit < 0xE000 then none
  else if 0xD800 ≤ unit ∧ unit < 0xDC00 then
    match cs with
    | '\\' :: 'u' :: cs =>
      let (low, cs) ← takeHex 4 0 cs
      if 0xDC00 ≤ low ∧ low < 0xE000 then
        some (Char.ofNat (0x10000 + (unit - 0xD800) * 0x400 + (low - 0xDC00)), cs)
      else none
    | _ => none
  else some (Char.ofNat unit, cs)

/-- The meaning of a single character after a backslash. -/
def shortEscape? : Char → Option Char
  | '"' => some '"'
  | '\\' => some '\\'
  | '/' => some '/'
  | 'b' => some '\x08'
  | 'f' => some '\x0C'
  | 'n' => some '\n'
  | 'r' => some '\r'
  | 't' => some '\t'
  | _ => none

/-- Reads one character of a string: as it is, or escaped. -/
def takeChar : List Char → Option (Char × List Char)
  | '\\' :: 'u' :: cs => takeUnicode cs
  | '\\' :: c :: cs => (shortEscape? c).map (·, cs)
  | '\\' :: [] => none
  | c :: cs => if c.toNat < 0x20 then none else some (c, cs)
  | [] => none

/-- Reads the rest of a string after its opening quote. Every step takes a character, so the length
of the text bounds their number. -/
def takeString : (bound : Nat) → Reader (List Char)
  | _, '"' :: cs => some ([], cs)
  | 0, _ => none
  | bound + 1, cs => do
    let (c, cs) ← takeChar cs
    let (text, cs) ← takeString bound cs
    some (c :: text, cs)

/-- Reads items with commas between them, at least one, and the sign that closes them. -/
def takeItems {α : Type} (item : Reader α) (closing : Char) : (bound : Nat) → Reader (List α)
  | 0, _ => none
  | bound + 1, cs => do
    let (first, cs) ← item cs
    match skipSpace cs with
    | ',' :: cs =>
      let (more, cs) ← takeItems item closing bound cs
      some (first :: more, cs)
    | c :: cs => if c = closing then some ([first], cs) else none
    | [] => none

/-- Reads the rest of a container after its opening sign. -/
def takeContents {α : Type} (item : Reader α) (closing : Char) : Reader (List α) := fun cs =>
  match skipSpace cs with
  | [] => none
  | c :: rest => if c = closing then some ([], rest) else takeItems item closing cs.length cs

/-- Reads a member of an object. -/
def takeMember (value : Reader Json) : Reader (String × Json) := fun cs =>
  match skipSpace cs with
  | '"' :: cs => do
    let (name, cs) ← takeString cs.length cs
    match skipSpace cs with
    | ':' :: cs =>
      let (v, cs) ← value cs
      some ((String.ofList name, v), cs)
    | _ => none
  | _ => none

/-- Reads a value that is no container. -/
def takeScalar (cs : List Char) : Option (Json × List Char) :=
  match cs with
  | '"' :: cs => (takeString cs.length cs).map fun (text, cs) => (.string (String.ofList text), cs)
  | 'n' :: _ => (takeWord ['n', 'u', 'l', 'l'] cs).map (.null, ·)
  | 't' :: _ => (takeWord ['t', 'r', 'u', 'e'] cs).map (.boolean true, ·)
  | 'f' :: _ => (takeWord ['f', 'a', 'l', 's', 'e'] cs).map (.boolean false, ·)
  | _ => (takeNumber cs).map fun (n, cs) => (.number n, cs)

/-- Reads a value whose containers nest at most `levels` deep, with blanks before it. -/
def takeValue : (levels : Nat) → Reader Json
  | 0, cs =>
    match skipSpace cs with
    | '[' :: _ => none
    | '\x7b' :: _ => none
    | cs => takeScalar cs
  | levels + 1, cs =>
    match skipSpace cs with
    | '[' :: cs =>
      (takeContents (takeValue levels) ']' cs).map fun (items, cs) => (.array items, cs)
    | '\x7b' :: cs =>
      (takeContents (takeMember (takeValue levels)) '\x7d' cs).map
        fun (members, cs) => (.object members, cs)
    | cs => takeScalar cs

/-- Reads a whole text as one value. -/
def read (source : String) : Option Json :=
  match takeValue maxDepth source.toList with
  | some (value, rest) => if (skipSpace rest).isEmpty then some value else none
  | none => none

end Phrasebook.Json

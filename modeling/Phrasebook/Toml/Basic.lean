import Phrasebook.Nested

/-!
# TOML statements

A TOML document is a list of statements: headers, which choose a table, and assignments to keys of
the chosen table.
-/

namespace Phrasebook.Toml

/-- A value as it is written. -/
inductive Value where
  /-- A text, a number, a truth value, or a date or time. -/
  | scalar (value : Nested)
  /-- An array. -/
  | array (items : List Value)
  /-- A table within one line: assignments of values to dotted keys, each with its last key apart.
  -/
  | inline (pairs : List ((List String × String) × Value))
  deriving Inhabited

/-- A statement. -/
inductive Statement where
  /-- Chooses the table at a path. -/
  | table (path : List String)
  /-- Adds a table to the array at a path and chooses it. -/
  | element (path : List String)
  /-- Assigns a value to a key below a path of keys. -/
  | assign (path : List String) (key : String) (value : Value)
  deriving Inhabited

/-- How deep arrays and inline tables may nest. -/
def maxDepth : Nat := 79

/-- How many keys a dotted key may have. -/
def maxPath : Nat := 79

/-- A reader takes what it reads off the front of a text. -/
abbrev Reader (α : Type) := List Char → Option (α × List Char)

/-- Whether a character may stand between tokens of a line. -/
def isSpace (c : Char) : Bool :=
  c == ' ' || c == '\t'

/-- The text without its leading blanks. -/
def skipSpace (cs : List Char) : List Char :=
  cs.dropWhile isSpace

/-- Whether a character may stand in a comment, or in a text where it needs no escape. -/
def isPlain (c : Char) : Bool :=
  c == '\t' || (0x20 ≤ c.toNat && c.toNat != 0x7F)

/-- Takes the end of a line. -/
def takeNewline : List Char → Option (List Char)
  | '\n' :: cs => some cs
  | '\r' :: '\n' :: cs => some cs
  | _ => none

/-- The text after a comment, if there is one. -/
def skipComment : List Char → List Char
  | '#' :: cs => cs.dropWhile isPlain
  | cs => cs

/-- Takes the rest of a line that holds at most blanks and a comment, with its end. -/
def takeLineEnd (cs : List Char) : Option (List Char) :=
  match skipComment (skipSpace cs) with
  | [] => some []
  | cs => takeNewline cs

end Phrasebook.Toml

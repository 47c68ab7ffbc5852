/-!
# Places in a YAML text

Blanks are spaces and tabs. Lines end with a line feed, a carriage return, both, or one of three
Unicode characters. A cursor is a place in a text together with its line and column, which block
structure and keys depend on.
-/

namespace Phrasebook.Yaml

/-- Whether a character may stand in a document. -/
def isAllowed (c : Char) : Bool :=
  let n := c.toNat
  n == 0x09 || n == 0x0A || n == 0x0D || (0x20 ≤ n && n ≤ 0x7E) || n == 0x85 ||
    (0xA0 ≤ n && n ≤ 0xFFFD) || 0x10000 ≤ n

/-- Whether a character is a blank. -/
def isBlank (c : Char) : Bool :=
  c == ' ' || c == '\t'

/-- Whether a character ends a line. -/
def isBreak (c : Char) : Bool :=
  c == '\n' || c == '\r' || c == '\u0085' || c == '\u2028' || c == '\u2029'

/-- Whether a character may stand in names of anchors, handles and directives. -/
def isNameChar (c : Char) : Bool :=
  c.isAlphanum || c == '_' || c == '-'

/-- Whether a text is at its end or at the end of a line. -/
def atLineEnd : List Char → Bool
  | [] => true
  | c :: _ => isBreak c

/-- Whether a text is at its end, at the end of a line, or at a blank. -/
def atGap : List Char → Bool
  | [] => true
  | c :: _ => isBlank c || isBreak c

/-- A place in a text. -/
structure Cursor where
  /-- The text from here on. -/
  rest : List Char
  /-- The number of characters before. -/
  index : Nat
  /-- The number of lines before. -/
  line : Nat
  /-- The number of characters before on the same line. -/
  column : Nat

namespace Cursor

/-- The start of a text. -/
def start (text : List Char) : Cursor := ⟨text, 0, 0, 0⟩

/-- The place after some characters of the same line. -/
def skip (count : Nat) (c : Cursor) : Cursor :=
  { c with rest := c.rest.drop count, index := c.index + count, column := c.column + count }

/-- The place after the characters with a property, which ends of lines do not have. -/
def skipWhile (p : Char → Bool) (c : Cursor) : Cursor :=
  c.skip (c.rest.takeWhile p).length

/-- The characters with a property, which ends of lines do not have, and the place after them. -/
def takeWhile (p : Char → Bool) (c : Cursor) : List Char × Cursor :=
  (c.rest.takeWhile p, c.skipWhile p)

/-- Takes one given character, which is not the end of a line. -/
def take? (d : Char) (c : Cursor) : Option Cursor :=
  if c.rest.head? = some d then some (c.skip 1) else none

/-- Takes the end of a line. It stands for a line feed, unless it is one of the two separators of
Unicode, which stand for themselves. -/
def takeBreak (c : Cursor) : Option (Char × Cursor) :=
  match c.rest with
  | [] => none
  | '\r' :: '\n' :: rest => some ('\n', ⟨rest, c.index + 2, c.line + 1, 0⟩)
  | d :: rest =>
    if isBreak d then
      some (if d = '\u2028' ∨ d = '\u2029' then d else '\n', ⟨rest, c.index + 1, c.line + 1, 0⟩)
    else none

/-- The place after a line break, if there is one here. -/
def skipBreak (c : Cursor) : Cursor :=
  match c.takeBreak with
  | some (_, next) => next
  | none => c

/-- The place after a comment, if there is one here. -/
def skipComment (c : Cursor) : Cursor :=
  if c.rest.head? = some '#' then c.skipWhile fun d => !isBreak d else c

/-- Takes the rest of a line that holds at most blanks and a comment, with its end. -/
def takeLineEnd (c : Cursor) : Option Cursor :=
  let c := (c.skipWhile isBlank).skipComment
  if atLineEnd c.rest then some c.skipBreak else none

/-- Whether a line starts here with three hyphens or three dots alone, which no content may do. -/
def atMarker (c : Cursor) : Bool :=
  c.column == 0 && (c.rest.take 3 == ['-', '-', '-'] || c.rest.take 3 == ['.', '.', '.']) &&
    atGap (c.rest.drop 3)

end Cursor

end Phrasebook.Yaml

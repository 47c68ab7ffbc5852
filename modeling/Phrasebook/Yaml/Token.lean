import Phrasebook.Number.Reading
import Phrasebook.Yaml.Scalar

/-!
# Tokens of YAML

What a document is made of, and how the tokens that are neither marks nor scalars are written:
directives, anchors and references to them, and tags.
-/

namespace Phrasebook.Yaml

open Text

/-- A token. -/
inductive Token where
  /-- The directive that tells the version. -/
  | version (major minor : Nat)
  /-- A directive that tells what a handle of tags stands for. -/
  | handle (name meaning : String)
  /-- Three hyphens. -/
  | documentStart
  /-- Three dots. -/
  | documentEnd
  /-- The start of a sequence of indented entries. -/
  | blockSequence
  /-- The start of a mapping of indented keys. -/
  | blockMapping
  /-- The end of either. -/
  | blockEnd
  /-- An opening bracket. -/
  | flowSequence
  /-- A closing bracket. -/
  | flowSequenceEnd
  /-- An opening brace. -/
  | flowMapping
  /-- A closing brace. -/
  | flowMappingEnd
  /-- The hyphen before an entry. -/
  | entry
  /-- A comma. -/
  | comma
  /-- A key follows. -/
  | key
  /-- The colon before a value. -/
  | value
  /-- A reference to the node with an anchor. -/
  | reference (name : String)
  /-- The anchor of a node. -/
  | anchor (name : String)
  /-- The tag of a node, as a handle and what follows it. -/
  | tag (handle suffix : String)
  /-- A scalar. -/
  | scalar (plain : Bool) (text : String)
  deriving DecidableEq, Repr

/-- Reads the name of an anchor. A gap follows it, or a mark. -/
def takeAnchorName (c : Cursor) : Option (String × Cursor) :=
  match c.takeWhile isNameChar with
  | ([], _) => none
  | (name, c) =>
    let atMark :=
      c.rest.head?.any fun d => ['?', ':', ',', ']', '\x7d', '%', '@', '\x60'].contains d
    if atGap c.rest || atMark then some (String.ofList name, c) else none

/-! ### Tags -/

/-- Reads a handle: an exclamation mark, name characters, and another one if it follows. -/
def takeHandle (c : Cursor) : Option (List Char × Cursor) := do
  let (name, c) := (← c.take? '!').takeWhile isNameChar
  match c.take? '!' with
  | some c => some ('!' :: name ++ ['!'], c)
  | none => some ('!' :: name, c)

/-- Whether a character may stand in a tag. Commas and brackets may only between angle brackets and
in directives. -/
def isTagChar (free : Bool) (c : Char) : Bool :=
  isNameChar c || ";/?:@&=+$.%!~*'()".contains c || (free && (c == ',' || c == '[' || c == ']'))

/-- The bytes of a character. -/
def bytesOf (c : Char) : List UInt8 :=
  c.toString.toUTF8.toList

/-- Reads the characters of a tag. A percent sign and two hexadecimal digits stand for a byte. -/
def takeTagBytes (free : Bool) : (bound : Nat) → Cursor → Option (List UInt8 × Cursor)
  | 0, c => some ([], c)
  | bound + 1, c =>
    match c.rest with
    | [] => some ([], c)
    | d :: rest =>
      if !isTagChar free d then some ([], c)
      else if d = '%' then do
        let (byte, _) ← takeHex 2 0 rest
        let (bytes, c) ← takeTagBytes free bound (c.skip 3)
        some (byte.toUInt8 :: bytes, c)
      else do
        let (bytes, c) ← takeTagBytes free bound (c.skip 1)
        some (bytesOf d ++ bytes, c)

/-- Reads the characters of a tag as a text. -/
def takeTagText (free : Bool) (c : Cursor) : Option (String × Cursor) := do
  let (bytes, c) ← takeTagBytes free c.rest.length c
  some (← String.fromUTF8? ⟨bytes.toArray⟩, c)

/-- Reads a tag as its handle and what follows it: in angle brackets without a handle, after a
handle, or after a single exclamation mark, which alone is a tag without a handle. -/
def takeTagParts (c : Cursor) : Option (String × String × Cursor) :=
  match c.rest with
  | '!' :: '<' :: _ => do
    let (text, c) ← takeTagText true (c.skip 2)
    if text.isEmpty then none else some ("", text, ← c.take? '>')
  | _ => do
    let (handle, c) ← takeHandle c
    let (text, c) ← takeTagText false c
    if handle.length ≥ 2 ∧ handle.getLast? = some '!' then
      if text.isEmpty then none else some (String.ofList handle, text, c)
    else
      let text := String.ofList (handle.drop 1) ++ text
      if text.isEmpty then some ("", "!", c) else some ("!", text, c)

/-- Reads a tag. A gap follows it; in flow collections also a comma. -/
def takeTag (flow : Bool) (c : Cursor) : Option (Token × Cursor) := do
  let (handle, suffix, c) ← takeTagParts c
  if atGap c.rest || (flow && c.rest.head? == some ',') then some (.tag handle suffix, c) else none

/-! ### Directives -/

/-- Reads a part of a version: at most nine digits. -/
def takeVersionPart (c : Cursor) : Option (Nat × Cursor) :=
  match c.takeWhile Char.isDigit with
  | ([], _) => none
  | (digits, c) => if digits.length ≤ 9 then some (Number.ofDigits digits, c) else none

/-- Reads what follows the name of a directive. -/
def takeDirectiveValue (name : List Char) (c : Cursor) : Option (Token × Cursor) :=
  let c := c.skipWhile isBlank
  if name = ['Y', 'A', 'M', 'L'] then do
    let (major, c) ← takeVersionPart c
    let (minor, c) ← takeVersionPart (← c.take? '.')
    some (.version major minor, c)
  else if name = ['T', 'A', 'G'] then do
    let (handle, c) ← takeHandle c
    if handle ≠ ['!'] ∧ (handle.length < 2 ∨ handle.getLast? ≠ some '!') then none
    else if !c.rest.head?.any isBlank then none
    else
      let (meaning, c) ← takeTagText true (c.skipWhile isBlank)
      if meaning.isEmpty || !atGap c.rest then none
      else some (.handle (String.ofList handle) meaning, c)
  else none

/-- Reads a directive with the end of its line. -/
def takeDirective (c : Cursor) : Option (Token × Cursor) := do
  let (name, c) := (c.skip 1).takeWhile isNameChar
  if atGap c.rest then
    let (token, c) ← takeDirectiveValue name c
    some (token, ← c.takeLineEnd)
  else none

end Phrasebook.Yaml

import Phrasebook.Json.Basic
import Phrasebook.Number.Shortest

/-!
# Writing JSON

Containers are written over several lines, each level indented by two spaces; empty ones stay on one
line. Strings escape quotes, backslashes and control characters only.
-/

namespace Phrasebook.Json

/-- A byte as two hexadecimal digits. -/
def hexPair (n : Nat) : List Char :=
  let digits := Nat.toDigits 16 n
  List.replicate (2 - digits.length) '0' ++ digits

/-- One character of a string. -/
def writeChar (c : Char) : List Char :=
  match c with
  | '"' => ['\\', '"']
  | '\\' => ['\\', '\\']
  | '\x08' => ['\\', 'b']
  | '\x0C' => ['\\', 'f']
  | '\n' => ['\\', 'n']
  | '\r' => ['\\', 'r']
  | '\t' => ['\\', 't']
  | c => if c.toNat < 0x20 then ['\\', 'u', '0', '0'] ++ hexPair c.toNat else [c]

/-- A string in quotes. -/
def writeString (s : String) : String :=
  "\"" ++ String.ofList (s.toList.flatMap writeChar) ++ "\""

/-- A number. -/
def writeNumber : JsonNumber → String
  | .integer n => toString n
  | .float x => x.text

/-- A new line at a level of indentation. -/
def newLine (level : Nat) : String :=
  String.ofList ('\n' :: List.replicate (2 * level) ' ')

mutual

/-- A value at a level of indentation. -/
def writeAt (level : Nat) : Json → String
  | .null => "null"
  | .boolean true => "true"
  | .boolean false => "false"
  | .number n => writeNumber n
  | .string text => writeString text
  | .array [] => "[]"
  | .array (item :: rest) =>
    "[" ++ newLine (level + 1) ++ writeAt (level + 1) item ++ writeItems (level + 1) rest ++
      newLine level ++ "]"
  | .object [] => "\x7b\x7d"
  | .object ((name, value) :: rest) =>
    "\x7b" ++ newLine (level + 1) ++ writeString name ++ ": " ++ writeAt (level + 1) value ++
      writeMembers (level + 1) rest ++ newLine level ++ "\x7d"

/-- The further items of an array. -/
def writeItems (level : Nat) : List Json → String
  | [] => ""
  | item :: rest => "," ++ newLine level ++ writeAt level item ++ writeItems level rest

/-- The further members of an object. -/
def writeMembers (level : Nat) : List (String × Json) → String
  | [] => ""
  | (name, value) :: rest =>
    "," ++ newLine level ++ writeString name ++ ": " ++ writeAt level value ++
      writeMembers level rest

end

/-- A value over several lines. -/
def write (value : Json) : String :=
  writeAt 0 value

end Phrasebook.Json

import Phrasebook.Text.Take
import Phrasebook.Toml.Basic

/-!
# Texts and keys of TOML

Texts in double quotes have escapes, texts in single quotes have none. Three quotes open a text over
several lines: a line break right after them is dropped, other line breaks are line feeds, and one
or two quotes may stand anywhere in it.
-/

namespace Phrasebook.Toml

open Text

/-- The meaning of a single character after a backslash. -/
def shortEscape? : Char → Option Char
  | 'b' => some '\x08'
  | 't' => some '\t'
  | 'n' => some '\n'
  | 'f' => some '\x0C'
  | 'r' => some '\r'
  | '"' => some '"'
  | '\\' => some '\\'
  | _ => none

/-- Reads an escape after its backslash. -/
def takeEscape : Reader Char
  | 'u' :: cs => do
    let (n, cs) ← takeHex 4 0 cs
    some (← charOf? n, cs)
  | 'U' :: cs => do
    let (n, cs) ← takeHex 8 0 cs
    some (← charOf? n, cs)
  | c :: cs => (shortEscape? c).map (·, cs)
  | [] => none

/-- Reads the rest of a text on one line after its opening quote; only texts in double quotes have
escapes. -/
def takeOneLine (quote : Char) : (bound : Nat) → Reader (List Char)
  | 0, _ => none
  | _, [] => none
  | bound + 1, c :: cs =>
    if c = quote then some ([], cs)
    else if c = '\\' ∧ quote = '"' then do
      let (c, cs) ← takeEscape cs
      let (text, cs) ← takeOneLine quote bound cs
      some (c :: text, cs)
    else if isPlain c then do
      let (text, cs) ← takeOneLine quote bound cs
      some (c :: text, cs)
    else none

/-- The text without leading blanks and line ends. -/
def skipBlankLines : (bound : Nat) → List Char → List Char
  | 0, cs => cs
  | bound + 1, cs =>
    match takeNewline (skipSpace cs) with
    | some rest => skipBlankLines bound rest
    | none => skipSpace cs

/-- Reads an escape of a text over several lines after its backslash. A backslash at the end of a
line joins the next text to it. -/
def takeLongEscape (cs : List Char) : Option (List Char × List Char) :=
  match takeNewline (skipSpace cs) with
  | some rest => some ([], skipBlankLines rest.length rest)
  | none => (takeEscape cs).map fun (c, rest) => ([c], rest)

/-- Reads the rest of a text over several lines after its opening quotes. Three to five quotes end
it; those beyond three belong to the text. -/
def takeManyLines (quote : Char) : (bound : Nat) → Reader (List Char)
  | 0, _ => none
  | bound + 1, cs =>
    match cs with
    | [] => none
    | c :: rest =>
      if c = quote then
        match (cs.takeWhile (· == quote)).length with
        | 1 | 2 => do
          let (text, cs) ← takeManyLines quote bound rest
          some (quote :: text, cs)
        | 3 | 4 | 5 =>
          some ((cs.takeWhile (· == quote)).drop 3, cs.dropWhile (· == quote))
        | _ => none
      else if c = '\\' ∧ quote = '"' then do
        let (escaped, cs) ← takeLongEscape rest
        let (text, cs) ← takeManyLines quote bound cs
        some (escaped ++ text, cs)
      else if isPlain c then do
        let (text, cs) ← takeManyLines quote bound rest
        some (c :: text, cs)
      else do
        let cs ← takeNewline cs
        let (text, cs) ← takeManyLines quote bound cs
        some ('\n' :: text, cs)

/-- Reads a text that starts with this quote. -/
def takeText (quote : Char) (cs : List Char) : Option (String × List Char) :=
  let read :=
    match takeWord [quote, quote, quote] cs with
    | some rest =>
      let rest := (takeNewline rest).getD rest
      takeManyLines quote (rest.length + 1) rest
    | none => takeOneLine quote cs.length (cs.drop 1)
  read.map fun (text, rest) => (String.ofList text, rest)

/-- Whether a character can stand in a key without quotes. -/
def isBare (c : Char) : Bool :=
  c.isAlphanum || c == '_' || c == '-'

/-- Reads a single key. -/
def takeKey : Reader String
  | '"' :: cs => (takeOneLine '"' (cs.length + 1) cs).map fun (key, cs) => (String.ofList key, cs)
  | '\'' :: cs =>
    (takeOneLine '\'' (cs.length + 1) cs).map fun (key, cs) => (String.ofList key, cs)
  | cs =>
    match cs.takeWhile isBare with
    | [] => none
    | key => some (String.ofList key, cs.dropWhile isBare)

/-- Reads keys with dots between them, at least one, with blanks around each. -/
def takeKeys : (bound : Nat) → Reader (List String)
  | 0, _ => none
  | bound + 1, cs => do
    let (key, cs) ← takeKey (skipSpace cs)
    match skipSpace cs with
    | '.' :: cs =>
      let (keys, cs) ← takeKeys bound cs
      some (key :: keys, cs)
    | cs => some ([key], cs)

/-- Reads a dotted key. -/
def takePath (cs : List Char) : Option (List String × List Char) := do
  let (keys, cs) ← takeKeys (cs.length + 1) cs
  if keys.length ≤ maxPath then some (keys, cs) else none

end Phrasebook.Toml

import Phrasebook.Toml.Scalar
import Phrasebook.Toml.Text

/-!
# Reading TOML statements

Values nest in arrays and inline tables a fixed number of levels; each level is a reader made from
the reader of the level below it. Arrays may span lines and end with a comma, inline tables may not.
-/

namespace Phrasebook.Toml

open Text

/-- The text without leading blanks, line ends and comments. Each of the `bound` steps takes a
comment or a line end. -/
def skipLines : (bound : Nat) → List Char → List Char
  | 0, cs => cs
  | bound + 1, cs =>
    match skipSpace cs with
    | '#' :: rest => skipLines bound (rest.dropWhile isPlain)
    | cs =>
      match takeNewline cs with
      | some rest => skipLines bound rest
      | none => cs

/-- The text without leading blanks, line ends and comments. -/
def skipGap (cs : List Char) : List Char :=
  skipLines cs.length cs

/-- Reads the rest of an array after its opening bracket or a comma. -/
def takeItems (value : Reader Value) : (bound : Nat) → Reader (List Value)
  | 0, _ => none
  | bound + 1, cs =>
    match skipGap cs with
    | ']' :: cs => some ([], cs)
    | cs => do
      let (item, cs) ← value cs
      match skipGap cs with
      | ']' :: cs => some ([item], cs)
      | ',' :: cs =>
        let (items, cs) ← takeItems value bound cs
        some (item :: items, cs)
      | _ => none

/-- Reads an assignment without the end of its line. -/
def takePair (value : Reader Value) : Reader ((List String × String) × Value) := fun cs => do
  let (keys, cs) ← takePath cs
  let key ← keys.getLast?
  match cs with
  | '=' :: cs =>
    let (v, cs) ← value (skipSpace cs)
    some (((keys.dropLast, key), v), cs)
  | _ => none

/-- Reads the assignments of an inline table, at least one, and its closing brace. -/
def takePairs (value : Reader Value) :
    (bound : Nat) → Reader (List ((List String × String) × Value))
  | 0, _ => none
  | bound + 1, cs => do
    let (pair, cs) ← takePair value cs
    match skipSpace cs with
    | '\x7d' :: cs => some ([pair], cs)
    | ',' :: cs =>
      let (pairs, cs) ← takePairs value bound cs
      some (pair :: pairs, cs)
    | _ => none

/-- Reads a value that holds no other values. -/
def takeScalar (cs : List Char) : Option (Value × List Char) :=
  match cs with
  | [] => none
  | c :: _ =>
    if c = '"' ∨ c = '\'' then
      (takeText c cs).map fun (text, cs) => (.scalar (.string text), cs)
    else if c = 't' then
      (takeWord ['t', 'r', 'u', 'e'] cs).map (.scalar (.boolean true), ·)
    else if c = 'f' then
      (takeWord ['f', 'a', 'l', 's', 'e'] cs).map (.scalar (.boolean false), ·)
    else (takeNumeric cs).map fun (n, cs) => (.scalar n, cs)

/-- Reads a value whose arrays and inline tables nest at most `levels` deep. -/
def takeValue : (levels : Nat) → Reader Value
  | 0, cs => takeScalar cs
  | levels + 1, cs =>
    match cs with
    | '[' :: cs =>
      (takeItems (takeValue levels) (cs.length + 1) cs).map fun (items, cs) => (.array items, cs)
    | '\x7b' :: cs =>
      match skipSpace cs with
      | '\x7d' :: cs => some (.inline [], cs)
      | _ =>
        (takePairs (takeValue levels) cs.length cs).map fun (pairs, cs) => (.inline pairs, cs)
    | cs => takeScalar cs

/-- Reads a statement with the end of its line. -/
def takeStatement (cs : List Char) : Option (Statement × List Char) :=
  match cs with
  | '[' :: '[' :: cs => do
    let (path, cs) ← takePath cs
    let cs ← takeWord [']', ']'] cs
    some (.element path, ← takeLineEnd cs)
  | '[' :: cs => do
    let (path, cs) ← takePath cs
    let cs ← takeWord [']'] cs
    some (.table path, ← takeLineEnd cs)
  | cs => do
    let (((path, key), v), cs) ← takePair (takeValue maxDepth) cs
    some (.assign path key v, ← takeLineEnd cs)

/-- Reads all statements of a text. -/
def takeStatements : (bound : Nat) → List Char → Option (List Statement)
  | 0, cs => if cs.isEmpty then some [] else none
  | bound + 1, cs =>
    match skipSpace cs with
    | [] => some []
    | cs =>
      match takeLineEnd cs with
      | some rest => takeStatements bound rest
      | none => do
        let (first, rest) ← takeStatement cs
        let more ← takeStatements bound rest
        some (first :: more)

/-- The statements of a document. A byte order mark before them means nothing. -/
def readStatements (source : String) : Option (List Statement) :=
  match source.toList with
  | '\uFEFF' :: cs => takeStatements (cs.length + 1) cs
  | cs => takeStatements (cs.length + 1) cs

end Phrasebook.Toml

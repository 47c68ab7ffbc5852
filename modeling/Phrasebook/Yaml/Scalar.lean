import Phrasebook.Text.Take
import Phrasebook.Yaml.Basic

/-!
# Scalars of YAML

A scalar is written plain, between quotes, or as a block of indented lines. In plain and quoted
scalars line breaks are folded: a single one stands for a space, of several all but the first count.
-/

namespace Phrasebook.Yaml

open Text

/-! ### Gaps -/

/-- What stands between two words of a scalar. -/
inductive Gap where
  /-- Blanks within a line. -/
  | blanks (cs : List Char)
  /-- Line breaks: the first one, unless it is escaped, and the other ones. -/
  | breaks (first more : List Char)

namespace Gap

/-- No gap. -/
def empty : Gap := .blanks []

/-- The text that a gap stands for. -/
def text : Gap → List Char
  | .blanks cs => cs
  | .breaks first more =>
    if first = ['\n'] then if more = [] then [' '] else more else first ++ more

/-- Whether a gap has a line break. -/
def isBroken : Gap → Bool
  | .blanks _ => false
  | .breaks _ _ => true

/-- The gap with one more blank. Blanks at the start of a line do not count. -/
def addBlank (c : Char) : Gap → Gap
  | .blanks cs => .blanks (cs ++ [c])
  | gap => gap

/-- The gap with one more line break. Blanks before it do not count. -/
def addBreak (c : Char) : Gap → Gap
  | .blanks _ => .breaks [c] []
  | .breaks first more => .breaks first (more ++ [c])

/-- Takes the blanks and line breaks after a gap. On a new line no tab may stand left of the
margin. -/
def extend (margin : Nat) : (bound : Nat) → Gap → Cursor → Option (Gap × Cursor)
  | 0, gap, c => some (gap, c)
  | bound + 1, gap, c =>
    match c.rest with
    | [] => some (gap, c)
    | d :: _ =>
      if isBlank d then
        if gap.isBroken && c.column < margin && d == '\t' then none
        else extend margin bound (gap.addBlank d) (c.skip 1)
      else
        match c.takeBreak with
        | some (b, c) => extend margin bound (gap.addBreak b) c
        | none => some (gap, c)

end Gap

/-! ### Plain scalars -/

/-- Whether a character is a bracket or a comma, which have a meaning in flow collections. -/
def isFlowMark (c : Char) : Bool :=
  c == ',' || c == '[' || c == ']' || c == '\x7b' || c == '\x7d'

/-- Whether a text starts with a bracket, a comma or a question mark. -/
def atFlowMark : List Char → Bool
  | [] => false
  | c :: _ => isFlowMark c || c == '?'

/-- The characters of a plain scalar up to the next gap. A colon ends it before a gap; in flow
collections brackets and commas end it, and no colon may stand before one of them. -/
def plainWord (flow : Bool) : List Char → Option (List Char)
  | [] => some []
  | c :: cs =>
    if isBlank c || isBreak c then some []
    else if flow && c == ':' && atFlowMark cs then none
    else if (c == ':' && atGap cs) || (flow && isFlowMark c) then some []
    else (plainWord flow cs).map (c :: ·)

/-- Reads a plain scalar after a gap: its text, and the gap that follows it. Outside of flow
collections its lines start at the margin or right of it. -/
def takePlain (flow : Bool) (margin : Nat) :
    (bound : Nat) → Gap → Cursor → Option (List Char × Gap × Cursor)
  | 0, gap, c => some ([], gap, c)
  | bound + 1, gap, c =>
    if c.atMarker || c.rest.head? == some '#' then some ([], gap, c)
    else do
      match ← plainWord flow c.rest with
      | [] => some ([], gap, c)
      | word =>
        let c := c.skip word.length
        let (after, c) ← Gap.empty.extend margin c.rest.length c
        if !flow && after.isBroken && c.column < margin then
          some (gap.text ++ word, after, c)
        else
          let (text, last, c) ← takePlain flow margin bound after c
          some (gap.text ++ word ++ text, last, c)

/-! ### Quoted scalars -/

/-- The meaning of a single character after a backslash. -/
def shortEscape? : Char → Option Char
  | '0' => some '\x00'
  | 'a' => some '\x07'
  | 'b' => some '\x08'
  | 't' => some '\t'
  | '\t' => some '\t'
  | 'n' => some '\n'
  | 'v' => some '\x0B'
  | 'f' => some '\x0C'
  | 'r' => some '\r'
  | 'e' => some '\x1B'
  | ' ' => some ' '
  | '"' => some '"'
  | '/' => some '/'
  | '\\' => some '\\'
  | 'N' => some '\u0085'
  | '_' => some '\u00A0'
  | 'L' => some '\u2028'
  | 'P' => some '\u2029'
  | _ => none

/-- The meaning of a code point with this many hexadecimal digits, and its length with the letter
before it. -/
def codeEscape? (count : Nat) (cs : List Char) : Option (Char × Nat) := do
  let (n, _) ← takeHex count 0 cs
  some (← charOf? n, count + 1)

/-- The meaning of an escape after its backslash, and its length. -/
def escape? : List Char → Option (Char × Nat)
  | [] => none
  | 'x' :: cs => codeEscape? 2 cs
  | 'u' :: cs => codeEscape? 4 cs
  | 'U' :: cs => codeEscape? 8 cs
  | c :: _ => (shortEscape? c).map (·, 1)

/-- Reads the characters of a quoted scalar up to the next gap, its closing quote, or a backslash at
the end of a line. Only double quotes have escapes; within single quotes two stand for one. -/
def takeQuotedWord (quote : Char) : (bound : Nat) → Cursor → Option (List Char × Cursor)
  | 0, c => some ([], c)
  | bound + 1, c =>
    match c.rest with
    | [] => some ([], c)
    | d :: rest =>
      let add (e : Char) (count : Nat) : Option (List Char × Cursor) :=
        (takeQuotedWord quote bound (c.skip count)).map fun (word, c) => (e :: word, c)
      if isBlank d || isBreak d then some ([], c)
      else if d = quote then
        if quote = '\'' ∧ rest.head? = some quote then add d 2 else some ([], c)
      else if d = '\\' ∧ quote = '"' then
        if !rest.isEmpty && atLineEnd rest then some ([], c)
        else (escape? rest).bind fun (e, count) => add e (count + 1)
      else add d 1

/-- Reads the rest of a quoted scalar after its opening quote. A backslash at the end of a line
joins the next text to it. -/
def takeQuoted (quote : Char) : (bound : Nat) → Cursor → Option (List Char × Cursor)
  | 0, _ => none
  | bound + 1, c =>
    if c.atMarker then none
    else do
      let (word, c) ← takeQuotedWord quote c.rest.length c
      match c.rest with
      | [] => none
      | d :: _ =>
        if d = quote then some (word, c.skip 1)
        else
          -- An escaped line break adds nothing, but the blanks after it are those of a new line.
          let (before, c) :=
            if d = '\\' then (Gap.breaks [] [], (c.skip 1).skipBreak) else (Gap.empty, c)
          let (gap, c) ← before.extend 0 c.rest.length c
          let (text, c) ← takeQuoted quote bound c
          some (word ++ gap.text ++ text, c)

/-! ### Block scalars -/

/-- What becomes of the line breaks at the end of a block. -/
inductive Ending where
  /-- All go. -/
  | strip
  /-- The first stays. -/
  | clip
  /-- All stay. -/
  | keep

/-- The ending that a character asks for. -/
def ending? : Char → Option Ending
  | '+' => some .keep
  | '-' => some .strip
  | _ => none

/-- Reads the ending in the first line of a block, if it is there. -/
def takeEnding (c : Cursor) : Ending × Cursor :=
  match c.rest.head?.bind ending? with
  | some ending => (ending, c.skip 1)
  | none => (.clip, c)

/-- Reads the indentation in the first line of a block, if it is there: a digit, not zero. -/
def takeIndentation (c : Cursor) : Option (Nat × Cursor) :=
  match c.rest.head? with
  | some d =>
    if d = '0' then none
    else if d.isDigit then some (d.toNat - '0'.toNat, c.skip 1)
    else some (0, c)
  | none => some (0, c)

/-- Reads the first line of a block after its mark: its ending and its indentation, zero if it is
not given. They stand in either order. -/
def takeBlockHeader (c : Cursor) : Option (Ending × Nat × Cursor) :=
  match c.rest.head?.bind ending? with
  | some ending => do
    let (indentation, c) ← takeIndentation (c.skip 1)
    some (ending, indentation, ← c.takeLineEnd)
  | none => do
    let (indentation, c) ← takeIndentation c
    let (ending, c) := takeEnding c
    some (ending, indentation, ← c.takeLineEnd)

/-- Takes lines without content, and the indentation of the line after them: their line breaks, and
the rightmost column that was reached. With `indent` zero any indentation is taken, else up to that
column; there no tab may stand left of it. -/
def takeEmptyLines (indent : Nat) :
    (bound : Nat) → (deepest : Nat) → Cursor → Option (List Char × Nat × Cursor)
  | 0, deepest, c => some ([], deepest, c)
  | bound + 1, deepest, c =>
    let spaces := (c.rest.takeWhile (· == ' ')).length
    let c := c.skip (if indent = 0 then spaces else min spaces (indent - c.column))
    let deepest := max deepest c.column
    if (indent = 0 ∨ c.column < indent) ∧ c.rest.head? = some '\t' then none
    else
      match c.takeBreak with
      | none => some ([], deepest, c)
      | some (b, c) =>
        (takeEmptyLines indent bound deepest c).map fun (bs, deepest, c) => (b :: bs, deepest, c)

/-- The text of the breaks between two lines of a block: `first` after the line before and `more` of
lines without content. In a folded block a single break between lines that are not indented further
stands for a space. -/
def betweenLines (fold : Bool) (first more : List Char) : List Char :=
  if fold && first == ['\n'] then if more.isEmpty then [' '] else more else first ++ more

/-- Reads the lines of a block from the start of a line's content: their text, and the breaks after
the last line. -/
def takeBlockLines (folded : Bool) (indent : Nat) :
    (bound : Nat) → (indented : Bool) → (first more : List Char) → Cursor →
      Option (List Char × (List Char × List Char) × Cursor)
  | 0, _, first, more, c => some ([], (first, more), c)
  | bound + 1, indented, first, more, c =>
    if c.column ≠ indent ∨ c.rest.isEmpty then some ([], (first, more), c)
    else do
      let blank := c.rest.head?.any isBlank
      let between := betweenLines (folded && !indented && !blank) first more
      let (line, c) := c.takeWhile fun d => !isBreak d
      let (first, c) :=
        match c.takeBreak with
        | some (b, c) => ([b], c)
        | none => ([], c)
      let (more, _, c) ← takeEmptyLines indent (c.rest.length + 1) 0 c
      let (text, last, c) ← takeBlockLines folded indent bound blank first more c
      some (between ++ line ++ text, last, c)

/-- Reads a block scalar after its mark. Its lines are indented to the same column, which is right
of the margin or at it. -/
def takeBlock (folded : Bool) (margin : Nat) (c : Cursor) : Option (List Char × Cursor) := do
  let (ending, indentation, c) ← takeBlockHeader c
  let indent := if indentation = 0 then 0 else margin - 1 + indentation
  let (more, deepest, c) ← takeEmptyLines indent (c.rest.length + 1) 0 c
  let indent := if indent = 0 then max 1 (max deepest margin) else indent
  let (text, (first, more), c) ← takeBlockLines folded indent (c.rest.length + 1) false [] more c
  let tail :=
    match ending with
    | .strip => []
    | .clip => first
    | .keep => first ++ more
  some (text ++ tail, c)

end Phrasebook.Yaml

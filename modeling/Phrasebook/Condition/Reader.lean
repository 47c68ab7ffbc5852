import Phrasebook.Condition.Basic
import Phrasebook.Condition.Fault
import Phrasebook.Text.Blank
import Phrasebook.Text.Bytes
import Phrasebook.Text.Name
import Phrasebook.Text.Take

/-!
# Reading conditions

The grammar, from the weakest binding to the strongest:

* a condition is a disjunction, conjunctions joined by `or` or `||`;
* a conjunction is negations joined by `and` or `&&`;
* a negation is a comparison after any number of `not` and `!`;
* a comparison is one operand, or two operands around a comparator;
* an operand is a text in quotes, a number, `true`, `false`, a name, a name in brackets, or a
  condition in parentheses.

Blanks may stand before every token. Each level is a reader made from the reader of the level below
it; a condition in parentheses takes one unit of the nesting that is allowed.
-/

namespace Phrasebook.Condition

open Text Number

/-- Where reading stopped, and why. -/
structure Stop where
  /-- What is wrong. -/
  reason : Reason
  /-- The text from the fault on. -/
  rest : List Char
  deriving DecidableEq, Repr

/-- A reader takes what it reads off the front of a text. -/
abbrev Reader (α : Type) := List Char → Except Stop (α × List Char)

/-! ### Words and signs -/

/-- Whether a text goes on with a character of a name. -/
def continuesName : List Char → Bool
  | [] => false
  | c :: _ => isNameRest c

/-- Takes a word that does not go on as a longer name. -/
def takeKeyword (word cs : List Char) : Option (List Char) :=
  (takeWord word cs).filter fun rest => !continuesName rest

/-- Takes `or` or `||`, with blanks before it. -/
def takeOr (cs : List Char) : Option (List Char) :=
  let cs := skipBlanks cs
  takeKeyword ['o', 'r'] cs <|> takeWord ['|', '|'] cs

/-- Takes `and` or `&&`, with blanks before it. -/
def takeAnd (cs : List Char) : Option (List Char) :=
  let cs := skipBlanks cs
  takeKeyword ['a', 'n', 'd'] cs <|> takeWord ['&', '&'] cs

/-- Takes an exclamation mark that is no part of `!=`. -/
def takeBang : List Char → Option (List Char)
  -- `!=` compares, even where an operand is missing before it.
  | '!' :: '=' :: _ => none
  | '!' :: cs => some cs
  | _ => none

/-- Takes `not` or `!`, with blanks before it. -/
def takeNot (cs : List Char) : Option (List Char) :=
  let cs := skipBlanks cs
  takeKeyword ['n', 'o', 't'] cs <|> takeBang cs

/-- The spellings of the comparators. One that begins another comes after it. -/
def comparatorSpellings : List (List Char × Comparator) :=
  [(['=', '='], .eq), (['!', '='], .ne), (['≠'], .ne), (['<', '='], .le), (['≤'], .le),
   (['>', '='], .ge), (['≥'], .ge), (['<'], .lt), (['>'], .gt), (['='], .eq)]

/-- Takes a comparator, with blanks before it. -/
def takeComparator (cs : List Char) : Option (Comparator × List Char) :=
  comparatorSpellings.findSome? fun (spelling, op) =>
    (takeWord spelling (skipBlanks cs)).map (op, ·)

/-! ### Operands -/

/-- What a character means after a backslash. -/
def unescape : Char → Char
  | 'n' => '\n'
  | 't' => '\t'
  | c => c

/-- Reads the rest of a text in quotes after its opening quote. -/
def takeQuoted (quote : Char) : List Char → Option (List Char × List Char)
  | [] => none
  | '\\' :: [] => none
  | '\\' :: c :: cs => (takeQuoted quote cs).map fun (text, rest) => (unescape c :: text, rest)
  | c :: cs =>
    if c = quote then some ([], cs)
    else (takeQuoted quote cs).map fun (text, rest) => (c :: text, rest)

/-- Takes a minus sign if there is one. -/
def takeMinus : List Char → Bool × List Char
  | '-' :: cs => (true, cs)
  | cs => (false, cs)

/-- Takes a point and digits if there are some. -/
def takeFraction : List Char → Option (List Char × List Char)
  | '.' :: cs => takeDigits cs
  | _ => none

/-- Reads digits, with an optional minus before and an optional fraction after them. Without a
fraction the number is an integer and has to fit. -/
def takeNumber (cs : List Char) : Option (Value × List Char) := do
  let (negative, cs) := takeMinus cs
  let (whole, rest) ← takeDigits cs
  match takeFraction rest with
  | some (fraction, rest) =>
    let magnitude := Layout.double.ofDecimal (ofDigits (whole ++ fraction)) (-fraction.length)
    some (.float (.ofMagnitude negative magnitude), rest)
  | none => (signedInt64? negative whole).map fun n => (.integer n, rest)

/-- The words that are no names of parameters. -/
def reserved : List (List Char) :=
  [['a', 'n', 'd'], ['o', 'r'], ['n', 'o', 't'], ['t', 'r', 'u', 'e'], ['f', 'a', 'l', 's', 'e']]

/-- Takes a name that is not reserved. -/
def takeParam (cs : List Char) : Option (List Char × List Char) :=
  (takeName cs).filter fun (name, _) => !reserved.contains name

/-- Reads the rest of a name in brackets after the opening bracket. -/
def takeBracketed (cs : List Char) : Option (List Char × List Char) :=
  match takeParam (skipBlanks cs) with
  | none => none
  | some (name, rest) =>
    match skipBlanks rest with
    | ']' :: rest => some (name, rest)
    | _ => none

/-- Takes `true` or `false`. -/
def takeTruth (cs : List Char) : Option (Bool × List Char) :=
  ((takeKeyword ['t', 'r', 'u', 'e'] cs).map (true, ·)) <|>
    ((takeKeyword ['f', 'a', 'l', 's', 'e'] cs).map (false, ·))

/-- Reads an operand other than a condition in parentheses. -/
def takeAtom (cs : List Char) : Option (Expr × List Char) :=
  match cs with
  | [] => none
  | c :: rest =>
    if c = '"' ∨ c = '\'' then
      (takeQuoted c rest).map fun (text, rest) => (.literal (.string (String.ofList text)), rest)
    else if c = '[' then
      (takeBracketed rest).map fun (name, rest) => (.param (String.ofList name), rest)
    else
      ((takeNumber cs).map fun (v, rest) => (.literal v, rest)) <|>
        ((takeTruth cs).map fun (b, rest) => (.literal (.boolean b), rest)) <|>
        ((takeParam cs).map fun (name, rest) => (.param (String.ofList name), rest))

/-- Whether no operand can start here: the text ends, a parenthesis closes, or an operator of two
sides follows. -/
def atBoundary (cs : List Char) : Bool :=
  match cs with
  | [] => true
  | c :: _ =>
    [')', '=', '<', '>', '&', '|', '≠', '≤', '≥'].contains c || (takeWord ['!', '='] cs).isSome ||
      (takeKeyword ['a', 'n', 'd'] cs).isSome || (takeKeyword ['o', 'r'] cs).isSome

/-- Reads the rest of a condition in parentheses after the opening one. -/
def enclosed (inner : Reader Expr) : Reader Expr := fun cs =>
  match inner cs with
  | .error stop => .error stop
  | .ok (e, rest) =>
    match skipBlanks rest with
    | ')' :: rest => .ok (e, rest)
    | [] => .error ⟨.unbalanced, []⟩
    | rest => .error ⟨.unknownToken, rest⟩

/-- Reads an operand; `inner` reads conditions in parentheses. -/
def operand (inner : Reader Expr) : Reader Expr := fun cs =>
  let cs := skipBlanks cs
  if atBoundary cs then .error ⟨.missingOperand, cs⟩
  else
    match cs with
    | '(' :: rest => enclosed inner rest
    | _ =>
      match takeAtom cs with
      | some result => .ok result
      | none => .error ⟨.unknownToken, cs⟩

/-! ### Operators -/

/-- Reads one operand, or two around a comparator. -/
def comparison (operand : Reader Expr) : Reader Expr := fun cs =>
  match operand cs with
  | .error stop => .error stop
  | .ok (left, rest) =>
    match takeComparator rest with
    | none => .ok (left, rest)
    | some (op, rest) =>
      match operand rest with
      | .error stop => .error stop
      | .ok (right, rest) => .ok (.compare op left right, rest)

/-- Takes negations off the front of a text, as many as there are up to `bound`, and counts them. -/
def takeNots : (bound : Nat) → List Char → Nat × List Char
  | 0, cs => (0, cs)
  | bound + 1, cs =>
    match takeNot cs with
    | none => (0, cs)
    | some rest =>
      let (count, rest) := takeNots bound rest
      (count + 1, rest)

/-- The expression below this many negations. -/
def negations : Nat → Expr → Expr
  | 0, e => e
  | count + 1, e => .negate (negations count e)

/-- Reads a comparison after any number of negations. -/
def negation (comparison : Reader Expr) : Reader Expr := fun cs =>
  let (count, rest) := takeNots cs.length cs
  match comparison rest with
  | .error stop => .error stop
  | .ok (e, rest) => .ok (negations count e, rest)

/-- Reads what follows the first item of a chain: items with an operator before each, up to
`bound` of them. -/
def furtherItems (operator : List Char → Option (List Char)) (item : Reader Expr) :
    (bound : Nat) → Reader (List Expr)
  | 0, cs => .ok ([], cs)
  | bound + 1, cs =>
    match operator cs with
    | none => .ok ([], cs)
    | some rest =>
      match item rest with
      | .error stop => .error stop
      | .ok (e, rest) =>
        match furtherItems operator item bound rest with
        | .error stop => .error stop
        | .ok (es, rest) => .ok (e :: es, rest)

/-- One expression of the items of a chain; a single item stands for itself. -/
def connected (op : Connective) (first : Expr) : List Expr → Expr
  | [] => first
  | more => .connect op (first :: more)

/-- Reads items joined by an operator. Every operator takes a character, so the length of the text
bounds their number. -/
def chain (op : Connective) (operator : List Char → Option (List Char)) (item : Reader Expr) :
    Reader Expr := fun cs =>
  match item cs with
  | .error stop => .error stop
  | .ok (first, rest) =>
    match furtherItems operator item rest.length rest with
    | .error stop => .error stop
    | .ok (more, rest) => .ok (connected op first more, rest)

/-- Reads a condition whose parentheses nest less than `levels` deep. -/
def disjunction : (levels : Nat) → Reader Expr
  | 0, cs => .error ⟨.tooDeep, cs⟩
  | levels + 1, cs =>
    chain .any takeOr (chain .all takeAnd (negation (comparison (operand (disjunction levels))))) cs

/-! ### Whole texts -/

/-- The text from the first opening parenthesis on that nests deeper than allowed. Parentheses in
quotes do not count. `depth` is the number of open parentheses. -/
def nestingOverflow? : (depth : Nat) → (quote : Option Char) → List Char → Option (List Char)
  | _, _, [] => none
  | n, some q, '\\' :: _ :: cs => nestingOverflow? n (some q) cs
  | n, some q, c :: cs => nestingOverflow? n (if c = q then none else some q) cs
  | n, none, c :: cs =>
    if c = '"' ∨ c = '\'' then nestingOverflow? n (some c) cs
    else if c = '(' then
      if n < maxNesting then nestingOverflow? (n + 1) none cs else some (c :: cs)
    -- One that closes nothing is left for the readers above to find.
    else if c = ')' then nestingOverflow? (n - 1) none cs
    else nestingOverflow? n none cs

/-- Whether a text begins like a token. -/
def startsToken : List Char → Bool
  | [] => false
  | c :: _ =>
    isNameRest c ||
      ['"', '\'', '[', '(', '-', '!', '=', '<', '>', '&', '|', '≠', '≤', '≥'].contains c

/-- Why a text after a complete condition is refused. -/
def trailingReason : List Char → Reason
  | ')' :: _ => .unbalanced
  | rest => if startsToken rest then .trailing else .unknownToken

/-- Reads a whole text as a condition. -/
def readAll (cs : List Char) : Except Stop Expr :=
  if byteLength cs > maxBytes then .error ⟨.tooLong (byteLength cs), cs⟩
  else if cs.all isBlank then .error ⟨.empty, cs⟩
  else
    match nestingOverflow? 0 none cs with
    | some rest => .error ⟨.tooDeep, rest⟩
    | none =>
      match disjunction (maxNesting + 1) cs with
      | .error stop => .error stop
      | .ok (e, rest) =>
        match skipBlanks rest with
        | [] => .ok e
        | rest => .error ⟨trailingReason rest, rest⟩

/-- Reads a condition. -/
def compile (source : String) : Except Fault Compiled :=
  match readAll source.toList with
  | .ok root => .ok ⟨source, root⟩
  | .error stop => .error ⟨source, offsetOf source.toList stop.rest, stop.reason⟩

end Phrasebook.Condition

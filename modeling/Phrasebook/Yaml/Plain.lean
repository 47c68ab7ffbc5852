import Phrasebook.Nested
import Phrasebook.Number.Reading

/-!
# Values of plain scalars

A plain scalar without a tag stands for nothing, a truth value or a number if it reads like one,
else for its text. Digits after a leading zero are no number.
-/

namespace Phrasebook.Yaml.Plain

open Number

/-- Whether a scalar stands for nothing. -/
def isNull (text : String) : Bool :=
  text == "null" || text == "Null" || text == "NULL" || text == "~"

/-- Reads a truth value. -/
def boolean? (text : String) : Option Bool :=
  if text == "true" || text == "True" || text == "TRUE" then some true
  else if text == "false" || text == "False" || text == "FALSE" then some false
  else none

/-! ### Integers -/

/-- Whether a text is a leading zero and more digits, with an optional sign. -/
def isPadded (cs : List Char) : Bool :=
  let digits := (takeSign cs).2
  1 < digits.length && digits.head? == some '0' && digits.all Char.isDigit

/-- The value of a digit in a base up to sixteen. -/
def digit? (base : Nat) (c : Char) : Option Nat :=
  let n :=
    if c.isDigit then c.toNat - '0'.toNat
    else if 'a' ≤ c ∧ c ≤ 'f' then c.toNat - 'a'.toNat + 10
    else if 'A' ≤ c ∧ c ≤ 'F' then c.toNat - 'A'.toNat + 10
    else base
  if n < base then some n else none

/-- Reads digits of a base, at least one. -/
def natural? (base : Nat) (cs : List Char) : Option Nat :=
  if cs.isEmpty then none
  else cs.foldlM (fun n c => (digit? base c).map (n * base + ·)) 0

/-- The base that the first two characters of a number tell, and its digits. -/
def takeBase : List Char → Option (Nat × List Char)
  | '0' :: 'x' :: cs => some (16, cs)
  | '0' :: 'o' :: cs => some (8, cs)
  | '0' :: 'b' :: cs => some (2, cs)
  | _ => none

/-- Reads digits in the base that they tell, or else in base ten. -/
def magnitude? (cs : List Char) : Option Nat :=
  match takeBase cs with
  | some (base, digits) => natural? base digits
  | none => natural? 10 cs

/-- Reads an integer with an optional sign. -/
def integer? (cs : List Char) : Option Int :=
  if isPadded cs then none
  else
    let (negative, digits) := takeSign cs
    (magnitude? digits).map fun n => if negative then -n else n

/-! ### Floating-point numbers -/

/-- Whether a text is the word for infinity. -/
def isInfinity (cs : List Char) : Bool :=
  cs == ['.', 'i', 'n', 'f'] || cs == ['.', 'I', 'n', 'f'] || cs == ['.', 'I', 'N', 'F']

/-- Whether a text is the word for not-a-number. -/
def isNaN (cs : List Char) : Bool :=
  cs == ['.', 'n', 'a', 'n'] || cs == ['.', 'N', 'a', 'N'] || cs == ['.', 'N', 'A', 'N']

/-- Reads a floating-point number with an optional sign. A number too large is none. -/
def float? (cs : List Char) : Option Binary64 :=
  let (negative, digits) := takeSign cs
  if isInfinity digits then some (.ofMagnitude negative Layout.double.infinity)
  else if isNaN cs then some (.ofMagnitude false Layout.double.quietNaN)
  else
    (readDecimal digits).bind fun (n, exponent) =>
      let magnitude := Layout.double.ofDecimal n exponent
      if magnitude < Layout.double.infinity then some (.ofMagnitude negative magnitude) else none

/-! ### Values -/

/-- Whether an integer needs more than 64 bits, but no more than 128. -/
def isOverlong (n : Int) : Bool :=
  !fitsSigned 64 n && !fitsUnsigned 64 n && (fitsSigned 128 n || fitsUnsigned 128 n)

/-- The value of an integer. If it needs all of 64 bits without a sign it is rounded; if it needs
more it has none. -/
def ofInteger? (n : Int) : Option Nested :=
  match int64? n with
  | some n => some (.integer n)
  | none => if fitsUnsigned 64 n then some (.float (.ofInt n)) else none

/-- The value of a scalar that does not read like an integer. -/
def ofOther (text : String) : Nested :=
  if isPadded text.toList then .string text
  else
    match float? text.toList with
    | some x => .float x
    | none => .string text

/-- The value of a plain scalar without a tag. An integer that is overlong is a fault; one that is
longer still is read as a floating-point number. -/
def value? (text : String) : Option Nested :=
  if text.isEmpty || isNull text then some .null
  else
    match boolean? text, integer? text.toList with
    | some b, _ => some (.boolean b)
    | none, some n => if isOverlong n then none else some ((ofInteger? n).getD (ofOther text))
    | none, none => some (ofOther text)

end Phrasebook.Yaml.Plain

import Phrasebook.Number.Binary64
import Phrasebook.Number.Width

/-!
# Reading numbers

Integers are a sign and decimal digits that fit in 64 bits. Floating-point numbers are decimals with
an optional point and exponent, rounded to the nearest number of the format, and the words for
infinity and not-a-number in either case of letters.
-/

namespace Phrasebook.Number

/-- The value of a list of decimal digits. -/
def ofDigits (cs : List Char) : Nat :=
  cs.foldl (fun n c => n * 10 + (c.toNat - '0'.toNat)) 0

/-- Splits an optional sign off; `true` stands for minus. -/
def takeSign : List Char → Bool × List Char
  | '-' :: cs => (true, cs)
  | '+' :: cs => (false, cs)
  | cs => (false, cs)

/-- The integer with this sign and these digits, if it fits. -/
def signedInt64? (negative : Bool) (digits : List Char) : Option Int64 :=
  let n : Int := ofDigits digits
  int64? (if negative then -n else n)

/-- Reads an optional sign and decimal digits as an integer of 64 bits. -/
def readInt64 (cs : List Char) : Option Int64 :=
  let (negative, digits) := takeSign cs
  if digits ≠ [] ∧ digits.all Char.isDigit then signedInt64? negative digits else none

/-- Reads an optional exponent that ends the text. -/
def readExponent : List Char → Option Int
  | [] => some 0
  | c :: cs =>
    if c = 'e' ∨ c = 'E' then
      let (negative, digits) := takeSign cs
      if digits ≠ [] ∧ digits.all Char.isDigit then
        let n : Int := ofDigits digits
        some (if negative then -n else n)
      else none
    else none

/-- Reads a decimal without its sign as digits and an exponent of ten. There is a digit before or
after the point. -/
def readDecimal (cs : List Char) : Option (Nat × Int) :=
  let whole := cs.takeWhile Char.isDigit
  let (fraction, rest) :=
    match cs.dropWhile Char.isDigit with
    | '.' :: cs => (cs.takeWhile Char.isDigit, cs.dropWhile Char.isDigit)
    | cs => ([], cs)
  if whole.isEmpty && fraction.isEmpty then none
  else
    (readExponent rest).map fun exponent =>
      (ofDigits (whole ++ fraction), exponent - fraction.length)

/-- Reads a number of the format as its sign and magnitude. -/
def readMagnitude (f : Layout) (cs : List Char) : Option (Bool × Nat) :=
  let (negative, unsigned) := takeSign cs
  let word := String.ofList (unsigned.map Char.toLower)
  if word == "inf" || word == "infinity" then some (negative, f.infinity)
  else if word == "nan" then some (negative, f.quietNaN)
  else (readDecimal unsigned).map fun (digits, exponent) => (negative, f.ofDecimal digits exponent)

/-- Reads a number of 64 bits. -/
def readBinary64 (cs : List Char) : Option Binary64 :=
  (readMagnitude .double cs).map fun (negative, magnitude) => .ofMagnitude negative magnitude

/-- Reads a number of 32 bits and widens it. -/
def readSingle (cs : List Char) : Option Binary64 :=
  (readMagnitude .single cs).map fun (negative, magnitude) => .ofSingle negative magnitude

end Phrasebook.Number

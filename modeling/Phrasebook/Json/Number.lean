import Phrasebook.Json.Basic
import Phrasebook.Number.Reading
import Phrasebook.Text.Take

/-!
# Numbers of JSON texts

The leading digits of a number are gathered while they fit in 64 bits. An integer that fits is
exact; any other number is the gathered significand, rounded, then multiplied or divided once by a
rounded power of ten. A number too large for a floating-point number is refused.
-/

namespace Phrasebook.Json

open Number Text

/-- The parts of a written number. -/
structure NumberText where
  /-- Whether there is a minus sign. -/
  negative : Bool
  /-- The digits before the point. -/
  whole : List Char
  /-- The digits after the point, if there is one. -/
  fraction : Option (List Char)
  /-- The sign and the digits of the exponent, if there is one; `true` stands for minus. -/
  exponent : Option (Bool × List Char)

/-- Appends digits to a significand as long as it fits in 64 bits, and returns the digits that are
left. -/
def gather : (significand : Nat) → List Char → Nat × List Char
  | significand, [] => (significand, [])
  | significand, c :: cs =>
    let next := significand * 10 + (c.toNat - '0'.toNat)
    if fitsUnsigned 64 next then gather next cs else (significand, c :: cs)

/-- Ten to the power of `n`, rounded. -/
def powerOfTen (n : Nat) : Binary64 :=
  .ofMagnitude false (Layout.double.ofDecimal 1 n)

/-- Divides by a power of ten, by `10 ^ 308` at a time at most. A positive number that fits in 64
bits is used up after two such steps. -/
def divideByPower : (steps : Nat) → Binary64 → Nat → Binary64
  | 0, x, _ => x
  | steps + 1, x, n =>
    if n ≤ 308 then x.dividedBy (powerOfTen n)
    else divideByPower steps (x.dividedBy (powerOfTen 308)) (n - 308)

/-- The number `significand * 10 ^ exponent`, unless it is too large. -/
def scaled? (significand : Nat) (exponent : Int) : Option Binary64 :=
  let x := Binary64.ofInt significand
  if exponent < 0 then some (divideByPower 4 x exponent.natAbs)
  else if 308 < exponent then if significand = 0 then some x else none
  else
    let product := x.times (powerOfTen exponent.toNat)
    if product.isInfinite then none else some product

/-- The number with this significand and exponent, after a written exponent is added. A written
exponent that does not fit in 32 bits stands for zero or for a number that is too large. -/
def withExponent? (significand : Nat) (start : Int) :
    Option (Bool × List Char) → Option Binary64
  | none => scaled? significand start
  | some (negative, digits) =>
    let n := ofDigits digits
    if fitsSigned 32 n then scaled? significand (if negative then start - n else start + n)
    else if negative || significand = 0 then some (.ofMagnitude false 0)
    else none

/-- An integer with this sign and magnitude. Minus zero and negative integers that do not fit are
floating-point numbers. -/
def integerOf (negative : Bool) (n : Nat) : JsonNumber :=
  if !negative then .integer n
  else if 0 < n ∧ fitsSigned 64 (-n) then .integer (-n)
  else .float (Binary64.ofInt n).negate

/-- The value of a written number. -/
def NumberText.value? (t : NumberText) : Option JsonNumber :=
  let (significand, dropped) := gather 0 t.whole
  if t.fraction.isNone && t.exponent.isNone && dropped.isEmpty then
    some (integerOf t.negative significand)
  else
    let fraction := t.fraction.getD []
    let (significand, ignored) := gather significand fraction
    let start : Int := dropped.length - (fraction.length - ignored.length : Nat)
    (withExponent? significand start t.exponent).map fun x =>
      .float (if t.negative then x.negate else x)

/-- Takes the digits before the point. Only the number zero starts with a zero. -/
def takeWhole : List Char → Option (List Char × List Char)
  | '0' :: cs =>
    match cs with
    | c :: _ => if c.isDigit then none else some (['0'], cs)
    | [] => some (['0'], [])
  | cs => takeDigits cs

/-- Takes an exponent if there is one. The outer failure is an exponent without digits. -/
def takeExponent (cs : List Char) : Option (Option (Bool × List Char) × List Char) :=
  match cs with
  | c :: rest =>
    if c = 'e' ∨ c = 'E' then
      let (negative, rest) := takeSign rest
      (takeDigits rest).map fun (digits, rest) => (some (negative, digits), rest)
    else some (none, cs)
  | [] => some (none, [])

/-- Takes the fraction if there is a point. The outer failure is a point without digits. -/
def takeFraction (cs : List Char) : Option (Option (List Char) × List Char) :=
  match cs with
  | '.' :: rest => (takeDigits rest).map fun (digits, rest) => (some digits, rest)
  | _ => some (none, cs)

/-- Reads a number. -/
def takeNumber (cs : List Char) : Option (JsonNumber × List Char) := do
  let (negative, cs) := match cs with
    | '-' :: cs => (true, cs)
    | cs => (false, cs)
  let (whole, cs) ← takeWhole cs
  let (fraction, cs) ← takeFraction cs
  let (exponent, cs) ← takeExponent cs
  let n ← NumberText.value? { negative, whole, fraction, exponent }
  some (n, cs)

end Phrasebook.Json

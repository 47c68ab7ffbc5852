import Phrasebook.Number.Binary64

/-!
# The shortest decimal that reads back

A finite number is written with the fewest significant digits that no other number is nearer to; of
two such decimals the nearer one is taken, and the larger one when both are equally near. The text
never uses an exponent.
-/

namespace Phrasebook.Number

/-- The numbers that round to one binary number, scaled to integers over a common denominator. -/
structure Neighbourhood where
  /-- The number itself. -/
  value : Nat
  /-- Half way to the number below. -/
  low : Nat
  /-- Half way to the number above. -/
  high : Nat
  /-- What the three are divided by. -/
  scale : Nat
  /-- Whether the ends round to the number as well. -/
  closed : Bool

namespace Neighbourhood

/-- The neighbourhood of a positive finite magnitude. Below a power of two the next number is half
as far away as above it. -/
def ofMagnitude (magnitude : Nat) : Neighbourhood :=
  let (m, shift) := Layout.double.decode magnitude
  let step := if m = Nat.pow 2 52 ∧ 0 < shift then 1 else 2
  { value := 4 * m * Nat.pow 2 shift
    low := (4 * m - step) * Nat.pow 2 shift
    high := (4 * m + 2) * Nat.pow 2 shift
    scale := Nat.pow 2 (Layout.double.leastStep + 2)
    closed := m % 2 = 0 }

/-- The place before the first significant digit: the value lies from `10 ^ (k - 1)` up to, but not
including, `10 ^ k`. -/
def point (n : Neighbourhood) : Int :=
  if n.scale ≤ n.value then (Nat.toDigits 10 (n.value / n.scale)).length
  else
    let places := (Nat.toDigits 10 (n.scale / n.value)).length
    if n.scale = n.value * Nat.pow 10 (places - 1) then 2 - (places : Int) else 1 - (places : Int)

/-- The multiple of `10 ^ exponent` next to the value, if one of its two neighbours on that grid
lies in the neighbourhood. -/
def onGrid? (n : Neighbourhood) (exponent : Int) : Option Nat :=
  let up := Nat.pow 10 (-exponent).toNat
  let unit := n.scale * Nat.pow 10 exponent.toNat
  let inside (d : Nat) : Bool :=
    if n.closed then n.low * up ≤ d * unit && d * unit ≤ n.high * up
    else n.low * up < d * unit && d * unit < n.high * up
  -- If any multiple lies in the neighbourhood, one of the two around the value does.
  let below := n.value * up / unit
  let rest := n.value * up % unit
  if inside below && (!inside (below + 1) || 2 * rest < unit) then some below
  else if inside (below + 1) then some (below + 1)
  else none

end Neighbourhood

/-- The digits and the exponent of the shortest decimal of a positive finite magnitude. Seventeen
digits always suffice. -/
def shortestDigits (magnitude : Nat) : Nat × Int :=
  let n := Neighbourhood.ofMagnitude magnitude
  let k := n.point
  ((List.range 17).findSome? fun i =>
    let exponent := k - (i + 1 : Nat)
    (n.onGrid? exponent).map (·, exponent)).getD (0, 0)

/-- Drops at most `fuel` trailing zeros of the digits into the exponent. -/
def dropZeros : (fuel : Nat) → Nat → Int → Nat × Int
  | 0, digits, exponent => (digits, exponent)
  | fuel + 1, digits, exponent =>
    if digits % 10 = 0 then dropZeros fuel (digits / 10) (exponent + 1) else (digits, exponent)

/-- The decimal text of `digits * 10 ^ exponent`, without an exponent. -/
def positional (digits : Nat) (exponent : Int) : List Char :=
  let text := Nat.toDigits 10 digits
  if 0 ≤ exponent then text ++ List.replicate exponent.toNat '0'
  else
    let places := exponent.natAbs
    if places < text.length then
      text.take (text.length - places) ++ '.' :: text.drop (text.length - places)
    else '0' :: '.' :: (List.replicate (places - text.length) '0' ++ text)

/-- The text of a number: its shortest decimal, or `NaN`, `inf` and `-inf`. -/
def Binary64.text (x : Binary64) : String :=
  if x.isNaN then "NaN"
  else
    let unsigned :=
      if x.isInfinite then ['i', 'n', 'f']
      else if x.magnitude = 0 then ['0']
      else
        let (digits, exponent) := shortestDigits x.magnitude
        let (digits, exponent) := dropZeros 20 digits exponent
        positional digits exponent
    String.ofList (if x.isNegative then '-' :: unsigned else unsigned)

end Phrasebook.Number

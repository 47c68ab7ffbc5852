import Phrasebook.Number.Layout

/-!
# Numbers of 64 bits in binary floating point

A number is its word of bits, so two numbers are equal exactly when their bits are: the two zeros
differ, and a not-a-number equals itself. Comparison as numbers is `Binary64.compare?`.
-/

namespace Phrasebook.Number

/-- A binary floating-point number of 64 bits. -/
structure Binary64 where
  /-- Sign, exponent and fraction, from the highest bit down. -/
  bits : UInt64
  deriving DecidableEq, Inhabited

namespace Binary64

/-- The number with this sign and magnitude. -/
def ofMagnitude (negative : Bool) (magnitude : Nat) : Binary64 :=
  ⟨UInt64.ofNat (if negative then magnitude + Nat.pow 2 63 else magnitude)⟩

/-- Whether the sign bit is set. -/
def isNegative (x : Binary64) : Bool :=
  Nat.pow 2 63 ≤ x.bits.toNat

/-- The exponent and fraction fields as one word. -/
def magnitude (x : Binary64) : Nat :=
  x.bits.toNat % Nat.pow 2 63

/-- Whether the word stands for no number. -/
def isNaN (x : Binary64) : Bool :=
  Layout.double.infinity < x.magnitude

/-- Whether the number is one of the two infinities. -/
def isInfinite (x : Binary64) : Bool :=
  x.magnitude == Layout.double.infinity

/-- Whether the number is neither infinite nor a word for no number. -/
def isFinite (x : Binary64) : Bool :=
  x.magnitude < Layout.double.infinity

/-- The nearest number to an integer. -/
def ofInt (n : Int) : Binary64 :=
  ofMagnitude (n < 0) (Layout.double.round n.natAbs 1)

/-- An integer with the order of the numbers; the two zeros agree. -/
def orderKey (x : Binary64) : Int :=
  if x.isNegative then -(x.magnitude : Int) else x.magnitude

/-- Comparison as numbers, undefined as soon as one side is not a number. -/
def compare? (x y : Binary64) : Option Ordering :=
  if x.isNaN || y.isNaN then none else some (compare x.orderKey y.orderKey)

/-- The rounded product of two finite numbers that are not negative. -/
def times (x y : Binary64) : Binary64 :=
  let (m, s) := Layout.double.decode x.magnitude
  let (n, t) := Layout.double.decode y.magnitude
  ofMagnitude false
    (Layout.double.round (m * n * Nat.pow 2 (s + t)) (Nat.pow 2 (2 * Layout.double.leastStep)))

/-- The rounded quotient of two finite numbers that are not negative, the divisor positive. -/
def dividedBy (x y : Binary64) : Binary64 :=
  let (m, s) := Layout.double.decode x.magnitude
  let (n, t) := Layout.double.decode y.magnitude
  ofMagnitude false (Layout.double.round (m * Nat.pow 2 s) (n * Nat.pow 2 t))

/-- The number with the opposite sign. -/
def negate (x : Binary64) : Binary64 :=
  ofMagnitude (!x.isNegative) x.magnitude

/-- Widens a number of 32 bits, given by sign and magnitude. -/
def ofSingle (negative : Bool) (magnitude : Nat) : Binary64 :=
  ofMagnitude negative <|
    if Layout.single.infinity < magnitude then
      Layout.double.infinity + (magnitude - Layout.single.infinity) * Nat.pow 2 29
    else if magnitude = Layout.single.infinity then Layout.double.infinity
    else
      let (m, s) := Layout.single.decode magnitude
      Layout.double.round (m * Nat.pow 2 s) (Nat.pow 2 Layout.single.leastStep)

end Binary64

end Phrasebook.Number

/-!
# Binary floating-point layouts

A layout says how many bits a format gives to the fraction and to the exponent. The magnitude of a
number is the word of those two fields; magnitudes are ordered like the numbers they stand for, so
that rounding is one exact division of natural numbers.
-/

namespace Phrasebook.Number

/-- The widths of the two fields of a binary floating-point format. -/
structure Layout where
  /-- Bits of the fraction. -/
  fractionBits : Nat
  /-- Bits of the exponent. -/
  exponentBits : Nat

/-- The quotient rounded to the nearest integer, a half to the even neighbour. -/
def divideToEven (a b : Nat) : Nat :=
  let quotient := a / b
  let twice := 2 * (a % b)
  if twice < b then quotient
  else if b < twice then quotient + 1
  else quotient + quotient % 2

namespace Layout

/-- The format of 64 bits. -/
def double : Layout := ⟨52, 11⟩

/-- The format of 32 bits. -/
def single : Layout := ⟨23, 8⟩

/-- The least positive number of the format is two to the power of minus this. -/
def leastStep (f : Layout) : Nat :=
  Nat.pow 2 (f.exponentBits - 1) - 2 + f.fractionBits

/-- The magnitude of infinity; larger words are not numbers. -/
def infinity (f : Layout) : Nat :=
  (Nat.pow 2 f.exponentBits - 1) * Nat.pow 2 f.fractionBits

/-- The magnitude of the quiet not-a-number. -/
def quietNaN (f : Layout) : Nat :=
  f.infinity + Nat.pow 2 (f.fractionBits - 1)

/-- The magnitude nearest to `num / den`, a half to the even neighbour, infinity from the bound of
the format on. The quotient is counted in least steps; those beyond the width of the significand are
shifted out. -/
def round (f : Layout) (num den : Nat) : Nat :=
  let steps := num * Nat.pow 2 f.leastStep
  -- A carry out of the fraction moves into the exponent by itself.
  let shift := Nat.log2 (steps / den) - f.fractionBits
  min f.infinity (shift * Nat.pow 2 f.fractionBits + divideToEven steps (den * Nat.pow 2 shift))

/-- The significand and the shift of a finite magnitude: it stands for `significand * 2 ^ shift`
least steps. -/
def decode (f : Layout) (magnitude : Nat) : Nat × Nat :=
  let exponent := magnitude / Nat.pow 2 f.fractionBits
  let fraction := magnitude % Nat.pow 2 f.fractionBits
  if exponent = 0 then (fraction, 0) else (fraction + Nat.pow 2 f.fractionBits, exponent - 1)

/-- The magnitude nearest to `digits * 10 ^ exponent`. Beyond four hundred places on either side the
answer is infinity or zero in every format. -/
def ofDecimal (f : Layout) (digits : Nat) (exponent : Int) : Nat :=
  let places : Int := (Nat.toDigits 10 digits).length + exponent
  if digits = 0 ∨ places < -400 then 0
  else if places > 400 then f.infinity
  else if exponent < 0 then f.round digits (Nat.pow 10 exponent.natAbs)
  else f.round (digits * Nat.pow 10 exponent.natAbs) 1

end Layout

end Phrasebook.Number

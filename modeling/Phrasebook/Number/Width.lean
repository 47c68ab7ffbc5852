/-!
# Widths of integers

Which integers a word of some number of bits can hold, with a sign and without.
-/

namespace Phrasebook.Number

/-- Whether an integer fits in a word of `bits` bits, the highest of which is the sign. -/
def fitsSigned (bits : Nat) (n : Int) : Bool :=
  -(Nat.pow 2 (bits - 1) : Int) ≤ n && n < (Nat.pow 2 (bits - 1) : Int)

/-- Whether an integer fits in a word of `bits` bits without a sign. -/
def fitsUnsigned (bits : Nat) (n : Int) : Bool :=
  0 ≤ n && n < (Nat.pow 2 bits : Int)

/-- The integer as a word of 64 bits, if it fits. -/
def int64? (n : Int) : Option Int64 :=
  if fitsSigned 64 n then some (Int64.ofInt n) else none

end Phrasebook.Number

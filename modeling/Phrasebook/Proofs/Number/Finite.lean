import Mathlib.Tactic.Ring
import Phrasebook.Number.Binary64

/-!
# Finite numbers

A quotient that is small enough is rounded to a finite number. How small is counted in binades, the
ranges of numbers with one exponent field: a number of a binade that is divided by one or more is in
the next binade at most (`Binary64.UpTo.dividedBy`), since rounding can only carry into that.

* `Layout.round_le`: the binade of a rounded quotient;
* `Binary64.UpTo`: a number is in a binade or in one before it;
* `Binary64.UpTo.isFinite`: numbers before the last binades are finite.
-/

namespace Phrasebook.Number

/-! ### Rounding -/

/-- Rounding goes down or up by one. -/
theorem divideToEven_eq_or (a b : Nat) :
    divideToEven a b = a / b ∨ divideToEven a b = a / b + 1 := by
  unfold divideToEven
  dsimp only
  split
  · exact Or.inl rfl
  split
  · exact Or.inr rfl
  -- In the middle the parity of the quotient decides.
  · rcases Nat.mod_two_eq_zero_or_one (a / b) with heven | hodd
    · exact Or.inl (by omega)
    · exact Or.inr (by omega)

namespace Layout

/-- A magnitude that is rounded is at most infinite. -/
theorem round_le_infinity (f : Layout) (num den : Nat) : f.round num den ≤ f.infinity :=
  Nat.min_le_left _ _

/-- A quotient of so many least steps is rounded to a number of the first `k + 2` binades. -/
theorem round_le {f : Layout} {num den k : Nat}
    (h : num * Nat.pow 2 f.leastStep / den < 2 ^ (f.fractionBits + 1 + k)) :
    f.round num den ≤ (k + 2) * 2 ^ f.fractionBits := by
  rw [round]
  generalize num * Nat.pow 2 f.leastStep = steps at h ⊢
  generalize hshift : Nat.log2 (steps / den) - f.fractionBits = shift
  have hk : shift ≤ k := by
    by_cases hzero : steps / den = 0
    · simp [← hshift, hzero]
    · have hlog := (Nat.log2_lt hzero).mpr h
      omega
  -- After the shift the significand has its width, and rounding adds one to it at most.
  have hwidth : steps / (den * Nat.pow 2 shift) < 2 ^ (f.fractionBits + 1) := by
    have hlog : steps / den < 2 ^ (Nat.log2 (steps / den) + 1) := Nat.lt_log2_self
    have hexponent : Nat.log2 (steps / den) + 1 ≤ f.fractionBits + 1 + shift := by omega
    rw [← Nat.div_div_eq_div_mul]
    apply Nat.div_lt_of_lt_mul
    calc steps / den < 2 ^ (Nat.log2 (steps / den) + 1) := hlog
      _ ≤ 2 ^ (f.fractionBits + 1 + shift) := Nat.pow_le_pow_right (by omega) hexponent
      _ = 2 ^ shift * 2 ^ (f.fractionBits + 1) := by ring
  have hrounded := divideToEven_eq_or steps (den * Nat.pow 2 shift)
  calc min f.infinity (shift * Nat.pow 2 f.fractionBits + divideToEven steps (den * Nat.pow 2 shift))
      ≤ shift * 2 ^ f.fractionBits + divideToEven steps (den * Nat.pow 2 shift) :=
        Nat.min_le_right _ _
    _ ≤ shift * 2 ^ f.fractionBits + 2 ^ (f.fractionBits + 1) := by omega
    _ = (shift + 2) * 2 ^ f.fractionBits := by ring
    _ ≤ (k + 2) * 2 ^ f.fractionBits := Nat.mul_le_mul_right _ (by omega)

/-- A quotient of so many least steps is rounded to a number after the first `k + 1` binades. -/
theorem le_round {f : Layout} {num den k : Nat}
    (h : 2 ^ (f.fractionBits + k) ≤ num * Nat.pow 2 f.leastStep / den) :
    min f.infinity ((k + 1) * 2 ^ f.fractionBits) ≤ f.round num den := by
  rw [round]
  generalize num * Nat.pow 2 f.leastStep = steps at h ⊢
  generalize hshift : Nat.log2 (steps / den) - f.fractionBits = shift
  have hne : steps / den ≠ 0 := by
    have hpos : 0 < 2 ^ (f.fractionBits + k) := Nat.two_pow_pos _
    omega
  have hlog : f.fractionBits + k ≤ Nat.log2 (steps / den) := (Nat.le_log2 hne).mpr h
  -- The leading bit of the quotient is the leading bit of the significand.
  have hwidth : 2 ^ f.fractionBits ≤ steps / (den * Nat.pow 2 shift) := by
    rw [← Nat.div_div_eq_div_mul]
    apply (Nat.le_div_iff_mul_le (Nat.two_pow_pos shift)).mpr
    calc 2 ^ f.fractionBits * 2 ^ shift = 2 ^ (f.fractionBits + shift) := (Nat.pow_add 2 _ _).symm
      _ = 2 ^ Nat.log2 (steps / den) := by
          congr 1
          omega
      _ ≤ steps / den := Nat.log2_self_le hne
  have hrounded := divideToEven_eq_or steps (den * Nat.pow 2 shift)
  apply Nat.le_min.mpr ⟨Nat.min_le_left _ _, ?_⟩
  calc min f.infinity ((k + 1) * 2 ^ f.fractionBits)
      ≤ (k + 1) * 2 ^ f.fractionBits := Nat.min_le_right _ _
    _ ≤ (shift + 1) * 2 ^ f.fractionBits := Nat.mul_le_mul_right _ (by omega)
    _ = shift * 2 ^ f.fractionBits + 2 ^ f.fractionBits := by ring
    _ ≤ shift * 2 ^ f.fractionBits + divideToEven steps (den * Nat.pow 2 shift) := by omega

/-- The numbers of the first `k + 1` binades have fewer least steps than this. -/
theorem decode_lt {f : Layout} {magnitude k : Nat}
    (h : magnitude ≤ (k + 1) * 2 ^ f.fractionBits) :
    (f.decode magnitude).1 * 2 ^ (f.decode magnitude).2 < 2 ^ (f.fractionBits + 1 + k) := by
  have hpos : 0 < 2 ^ f.fractionBits := Nat.two_pow_pos _
  have hexponent : magnitude / Nat.pow 2 f.fractionBits ≤ k + 1 := Nat.div_le_of_le_mul (by
    rw [Nat.mul_comm]
    exact h)
  have hfraction : magnitude % Nat.pow 2 f.fractionBits < 2 ^ f.fractionBits := Nat.mod_lt _ hpos
  rw [decode]
  generalize magnitude / Nat.pow 2 f.fractionBits = exponent at hexponent
  generalize magnitude % Nat.pow 2 f.fractionBits = fraction at hfraction
  have hwidth : fraction + 2 ^ f.fractionBits < 2 ^ (f.fractionBits + 1) := by
    rw [Nat.pow_succ]
    omega
  split
  · calc fraction * 2 ^ 0 < 2 ^ (f.fractionBits + 1) := by omega
      _ ≤ 2 ^ (f.fractionBits + 1 + k) := Nat.pow_le_pow_right (by omega) (by omega)
  · calc (fraction + 2 ^ f.fractionBits) * 2 ^ (exponent - 1)
        < 2 ^ (f.fractionBits + 1) * 2 ^ (exponent - 1) :=
          Nat.mul_lt_mul_of_pos_right hwidth (Nat.two_pow_pos _)
      _ ≤ 2 ^ (f.fractionBits + 1) * 2 ^ k :=
          Nat.mul_le_mul_left _ (Nat.pow_le_pow_right (by omega) (by omega))
      _ = 2 ^ (f.fractionBits + 1 + k) := (Nat.pow_add 2 _ _).symm

/-- The numbers after the first `k + 1` binades have this many least steps or more. -/
theorem le_decode {f : Layout} {magnitude k : Nat}
    (h : (k + 1) * 2 ^ f.fractionBits ≤ magnitude) :
    2 ^ (f.fractionBits + k) ≤ (f.decode magnitude).1 * 2 ^ (f.decode magnitude).2 := by
  have hexponent : k + 1 ≤ magnitude / Nat.pow 2 f.fractionBits :=
    (Nat.le_div_iff_mul_le (Nat.two_pow_pos _)).mpr h
  rw [decode]
  generalize magnitude / Nat.pow 2 f.fractionBits = exponent at hexponent
  generalize magnitude % Nat.pow 2 f.fractionBits = fraction
  split
  · omega
  · calc 2 ^ (f.fractionBits + k) = 2 ^ f.fractionBits * 2 ^ k := Nat.pow_add 2 _ _
      _ ≤ 2 ^ f.fractionBits * 2 ^ (exponent - 1) :=
          Nat.mul_le_mul_left _ (Nat.pow_le_pow_right (by omega) (by omega))
      _ ≤ (fraction + 2 ^ f.fractionBits) * 2 ^ (exponent - 1) :=
          Nat.mul_le_mul_right _ (Nat.le_add_left _ _)

end Layout

namespace Binary64

/-- A magnitude that leaves room for the sign can be read off the word. -/
theorem magnitude_ofMagnitude_of_lt {magnitude : Nat} (h : magnitude < 2 ^ 63) (negative : Bool) :
    (ofMagnitude negative magnitude).magnitude = magnitude := by
  have hpow : Nat.pow 2 63 = 2 ^ 63 := rfl
  simp only [Binary64.magnitude, ofMagnitude, UInt64.toNat_ofNat', hpow]
  split <;> omega

/-- All magnitudes up to the one of infinity leave this room. -/
theorem magnitude_ofMagnitude {negative : Bool} {magnitude : Nat}
    (h : magnitude ≤ Layout.double.infinity) :
    (ofMagnitude negative magnitude).magnitude = magnitude := by
  have hinfinity : Layout.double.infinity < 2 ^ 63 := by decide
  exact magnitude_ofMagnitude_of_lt (Nat.lt_of_le_of_lt h hinfinity) negative

/-- The opposite number has the same magnitude. -/
theorem magnitude_negate (x : Binary64) : x.negate.magnitude = x.magnitude :=
  magnitude_ofMagnitude_of_lt (Nat.mod_lt _ (Nat.two_pow_pos 63)) _

/-- The number is in one of the first `n` binades, the one with zero in it included, or it begins the
next. -/
def UpTo (n : Nat) (x : Binary64) : Prop :=
  x.magnitude ≤ n * 2 ^ 52

variable {n : Nat} {x y : Binary64}

theorem UpTo.mono {m : Nat} (h : x.UpTo m) (hle : m ≤ n) : x.UpTo n :=
  Nat.le_trans h (Nat.mul_le_mul_right _ hle)

/-- There are 2047 binades of finite numbers. -/
theorem UpTo.isFinite (h : x.UpTo 2046) : x.isFinite = true := by
  have hinfinity : 2046 * 2 ^ 52 < Layout.double.infinity := by decide
  exact decide_eq_true (Nat.lt_of_le_of_lt h hinfinity)

theorem isFinite_negate (h : x.isFinite = true) : x.negate.isFinite = true := by
  rwa [Binary64.isFinite, magnitude_negate]

/-- A rounded quotient of so few least steps is in these binades. -/
theorem upTo_round {num den k : Nat} {negative : Bool}
    (h : num * Nat.pow 2 Layout.double.leastStep / den < 2 ^ (52 + 1 + k)) :
    (ofMagnitude negative (Layout.double.round num den)).UpTo (k + 2) := by
  rw [UpTo, magnitude_ofMagnitude (Layout.round_le_infinity _ _ _)]
  exact Layout.round_le h

/-- An integer that fits in 64 bits is far from being infinite. -/
theorem upTo_ofInt {i : Int} (h : i.natAbs < 2 ^ 64) : (ofInt i).UpTo 1087 := by
  apply upTo_round (k := 1085)
  rw [Nat.div_one]
  have hexponent : 64 + Layout.double.leastStep = 52 + 1 + 1085 := rfl
  rw [← hexponent]
  -- The number of least steps in one is too large to be written out.
  generalize Layout.double.leastStep = step
  calc i.natAbs * Nat.pow 2 step < 2 ^ 64 * 2 ^ step :=
        Nat.mul_lt_mul_of_pos_right h (Nat.two_pow_pos step)
    _ = 2 ^ (64 + step) := (Nat.pow_add 2 64 step).symm

/-- The magnitude is that of one or more: 1023 binades come before one. -/
def OneOrMore (x : Binary64) : Prop :=
  1023 * 2 ^ 52 ≤ x.magnitude

/-- A positive integer is rounded to one or more. -/
theorem oneOrMore_round {i : Nat} (h : 0 < i) (negative : Bool) :
    (ofMagnitude negative (Layout.double.round i 1)).OneOrMore := by
  have hinfinity : 1023 * 2 ^ 52 ≤ Layout.double.infinity := by decide
  have hexponent : Layout.double.fractionBits + 1022 = Layout.double.leastStep := rfl
  have hsteps : 2 ^ (Layout.double.fractionBits + 1022) ≤
      i * Nat.pow 2 Layout.double.leastStep / 1 := by
    rw [Nat.div_one, hexponent]
    generalize Layout.double.leastStep = step
    exact Nat.le_mul_of_pos_left _ h
  have hround := Layout.le_round hsteps
  rw [OneOrMore, magnitude_ofMagnitude (Layout.round_le_infinity _ _ _)]
  exact Nat.le_trans (Nat.le_min.mpr ⟨hinfinity, Nat.le_refl _⟩) hround

/-- Dividing by one or more leads to the next binade at most. -/
theorem UpTo.dividedBy (hx : x.UpTo (n + 1)) (hy : y.OneOrMore) :
    (x.dividedBy y).UpTo (n + 2) := by
  apply upTo_round (k := n)
  have hless := Layout.decode_lt (f := .double) hx
  have hmore := Layout.le_decode (f := .double) (k := 1022) hy
  have hexponent : Layout.double.fractionBits + 1022 = Layout.double.leastStep := rfl
  rw [hexponent] at hmore
  -- The number of least steps in one is too large to be written out.
  generalize Layout.double.leastStep = step at hmore ⊢
  have hpos : 0 < Nat.pow 2 step := Nat.two_pow_pos step
  calc (Layout.double.decode x.magnitude).1 * Nat.pow 2 (Layout.double.decode x.magnitude).2 *
          Nat.pow 2 step /
          ((Layout.double.decode y.magnitude).1 * Nat.pow 2 (Layout.double.decode y.magnitude).2)
      ≤ (Layout.double.decode x.magnitude).1 * Nat.pow 2 (Layout.double.decode x.magnitude).2 *
          Nat.pow 2 step / Nat.pow 2 step := Nat.div_le_div_left hmore hpos
    _ = (Layout.double.decode x.magnitude).1 * Nat.pow 2 (Layout.double.decode x.magnitude).2 :=
        Nat.mul_div_cancel _ hpos
    _ < 2 ^ (52 + 1 + n) := hless

/-- A product that is not infinite is finite. -/
theorem isFinite_times (h : (x.times y).isInfinite = false) : (x.times y).isFinite = true := by
  have hle : (x.times y).magnitude ≤ Layout.double.infinity := by
    rw [times]
    dsimp only
    rw [magnitude_ofMagnitude (Layout.round_le_infinity _ _ _)]
    exact Layout.round_le_infinity _ _ _
  have hne : (x.times y).magnitude ≠ Layout.double.infinity := by simpa [isInfinite] using h
  exact decide_eq_true (Nat.lt_of_le_of_ne hle hne)

end Binary64

end Phrasebook.Number

import ChipEight.Binary32.Rounding
import Mathlib.Algebra.Order.Field.Rat
import Mathlib.Tactic.Linarith
import Mathlib.Tactic.Ring

/-!
# Fields and magnitudes

The three fields of a number are read back from the bits that they were put into,
and tell the whole number.  A finite magnitude is a significand shifted by the
exponent; putting a shifted significand into the format gives it back, with the
parity of the significand as that of the fraction.
-/

namespace ChipEight.Binary32

/-! ## Fields -/

theorem toNat_append {m n : Nat} (high : BitVec m) (low : BitVec n) :
    (high ++ low).toNat = high.toNat * Nat.pow 2 n + low.toNat := by
  have small : low.toNat < 2 ^ n := low.isLt
  rw [BitVec.toNat_append, ← Nat.shiftLeft_add_eq_or_of_lt small,
    Nat.shiftLeft_eq]
  rfl

theorem toNat_ofFields (negative : Bool) (exponent fraction : Nat) :
    (ofFields negative exponent fraction).bits.toNat =
      (negative.toNat * 0x100 + exponent % 0x100) * 0x800000 +
        fraction % 0x800000 := by
  have whole := toNat_append
    (BitVec.ofBool negative ++ BitVec.ofNat 8 exponent)
    (BitVec.ofNat 23 fraction)
  have front :=
    toNat_append (BitVec.ofBool negative) (BitVec.ofNat 8 exponent)
  rw [BitVec.toNat_ofBool, BitVec.toNat_ofNat] at front
  rw [front, BitVec.toNat_ofNat] at whole
  exact whole

theorem negative_eq (x : Binary32) :
    x.negative = decide (0x80000000 ≤ x.bits.toNat) := by
  rw [negative, BitVec.msb_eq_decide]

theorem exponent_eq (x : Binary32) :
    x.exponent = x.bits.toNat / 0x800000 % 0x100 := by
  rw [exponent, BitVec.extractLsb'_toNat, Nat.shiftRight_eq_div_pow]

theorem fraction_eq (x : Binary32) :
    x.fraction = x.bits.toNat % 0x800000 := by
  rw [fraction, BitVec.extractLsb'_toNat, Nat.shiftRight_zero]

theorem exponent_lt (x : Binary32) : x.exponent < 0x100 :=
  (x.bits.extractLsb' 23 8).isLt

theorem fraction_lt (x : Binary32) : x.fraction < 0x800000 :=
  (x.bits.extractLsb' 0 23).isLt

@[simp] theorem negative_ofFields
    (negative : Bool) (exponent fraction : Nat) :
    (ofFields negative exponent fraction).negative = negative := by
  rw [negative_eq, toNat_ofFields]
  cases negative with
  | false =>
      rw [decide_eq_false_iff_not, Bool.toNat_false]
      omega
  | true =>
      rw [decide_eq_true_iff, Bool.toNat_true]
      omega

theorem exponent_ofFields
    (negative : Bool) {exponent : Nat} (inByte : exponent < 0x100)
    (fraction : Nat) :
    (ofFields negative exponent fraction).exponent = exponent := by
  rw [exponent_eq, toNat_ofFields]
  omega

theorem fraction_ofFields
    (negative : Bool) (exponent : Nat)
    {fraction : Nat} (inField : fraction < 0x800000) :
    (ofFields negative exponent fraction).fraction = fraction := by
  rw [fraction_eq, toNat_ofFields]
  omega

theorem ofFields_fields (x : Binary32) :
    ofFields x.negative x.exponent x.fraction = x := by
  have whole := toNat_ofFields x.negative x.exponent x.fraction
  have bounded : x.bits.toNat < 0x100000000 := x.bits.isLt
  rw [exponent_eq, fraction_eq, negative_eq] at whole
  have sameBits :
      (ofFields x.negative x.exponent x.fraction).bits = x.bits := by
    apply BitVec.eq_of_toNat_eq
    rw [exponent_eq, fraction_eq, negative_eq, whole]
    by_cases signed : 0x80000000 ≤ x.bits.toNat
    · rw [decide_eq_true signed, Bool.toNat_true]
      omega
    · rw [decide_eq_false signed, Bool.toNat_false]
      omega
  exact congrArg Binary32.mk sameBits

/-! ## Significands -/

/-- The fraction with its leading bit, which the numbers nearest to zero lack. -/
def significand (x : Binary32) : Nat :=
  if x.exponent = 0 then x.fraction else leadingBit + x.fraction

theorem magnitude_eq (x : Binary32) :
    x.magnitude = x.significand * 2 ^ (x.exponent - 1) := by
  rw [magnitude, significand]
  split
  next zero =>
    rw [zero, Nat.zero_sub, pow_zero, Nat.mul_one]
  next =>
    rfl

theorem significand_lt (x : Binary32) : x.significand < 0x1000000 := by
  have bounded := x.fraction_lt
  rw [significand, leadingBit]
  split <;> omega

theorem magnitude_lt {x : Binary32} (finite : x.exponent ≠ 255) :
    x.magnitude < 0x800000 * 2 ^ 254 := by
  have inByte := x.exponent_lt
  have atMost : 2 ^ (x.exponent - 1) ≤ 2 ^ 253 :=
    Nat.pow_le_pow_right (by decide) (by omega)
  have power : 0x1000000 * 2 ^ 253 = 0x800000 * 2 ^ 254 := by
    rw [pow_succ 2 253]
    omega
  rw [magnitude_eq, ← power]
  exact Nat.mul_lt_mul_of_lt_of_le x.significand_lt atMost
    (Nat.two_pow_pos _)

theorem log2_shifted
    {k : Nat} (leading : 0x800000 ≤ k) (small : k < 0x1000000) (s : Nat) :
    (k * 2 ^ s).log2 = 23 + s := by
  have positive : 0 < 2 ^ s := Nat.two_pow_pos s
  have lower : 2 ^ (23 + s) = 0x800000 * 2 ^ s := pow_add 2 23 s
  have upper : 2 ^ (23 + s + 1) = 0x1000000 * 2 ^ s := by
    rw [pow_succ, lower]
    omega
  rw [Nat.log2_eq_iff (Nat.mul_ne_zero (by omega) (by omega)), lower, upper]
  exact ⟨Nat.mul_le_mul_right _ leading,
    Nat.mul_lt_mul_of_pos_right small positive⟩

theorem ofMagnitude_below
    (negative : Bool) {k : Nat} (small : k < 0x800000) :
    ofMagnitude negative k = ofFields negative 0 k := by
  rw [ofMagnitude, leadingBit, if_pos small]

theorem ofMagnitude_shifted
    (negative : Bool) {k s : Nat}
    (leading : 0x800000 ≤ k) (small : k < 0x1000000) (inRange : s < 254) :
    ofMagnitude negative (k * 2 ^ s) =
      ofFields negative (s + 1) (k - 0x800000) := by
  have positive : 0 < 2 ^ s := Nat.two_pow_pos s
  have large : ¬k * 2 ^ s < 0x800000 := by
    have atLeast := Nat.mul_le_mul leading positive
    omega
  have shift : 23 + s - 23 = s := by
    omega
  have quotient : k * 2 ^ s / Nat.pow 2 s = k :=
    Nat.mul_div_cancel _ positive
  rw [ofMagnitude, leadingBit, if_neg large, log2_shifted leading small,
    shift]
  simp only [if_pos inRange, quotient]

theorem ofMagnitude_beyond
    (negative : Bool) {m : Nat} (beyond : 0x800000 * 2 ^ 254 ≤ m) :
    ofMagnitude negative m = infinity negative := by
  have positive := Nat.two_pow_pos 254
  have large : ¬m < 0x800000 := by
    omega
  have power : 2 ^ (23 + 254) ≤ m := (pow_add 2 23 254).trans_le beyond
  have far : ¬m.log2 - 23 < 254 := by
    have atLeast := (Nat.le_log2 (by omega)).mpr power
    omega
  rw [ofMagnitude, leadingBit, if_neg large]
  simp only [if_neg far]

/-- A finite number is told by its sign and its magnitude. -/
theorem ofMagnitude_magnitude
    {x : Binary32} (finite : x.exponent ≠ 255) :
    ofMagnitude x.negative x.magnitude = x := by
  have inByte := x.exponent_lt
  have inField := x.fraction_lt
  rw [magnitude_eq, significand]
  split
  next zero =>
    rw [zero, Nat.zero_sub, pow_zero, Nat.mul_one,
      ofMagnitude_below _ inField]
    refine Eq.trans ?_ x.ofFields_fields
    rw [zero]
  next normal =>
    rw [leadingBit,
      ofMagnitude_shifted _ (by omega) (by omega) (by omega)]
    refine Eq.trans ?_ x.ofFields_fields
    rw [Nat.sub_add_cancel (by omega), Nat.add_sub_cancel_left]

/-! ## The grid of magnitudes -/

/-- A significand and a shift that stand for a magnitude of the format, or for the
power of two after the largest significand, to which rounding can go up. -/
structure OnGrid (k s : Nat) : Prop where
  small : k ≤ 0x1000000
  full : s = 0 ∨ 0x800000 ≤ k

/-- A finite number with the magnitude of a shifted significand, whose fraction has
the parity of that significand. -/
structure Represents (x : Binary32) (k s : Nat) : Prop where
  finite : x.exponent ≠ 255
  magnitude : x.magnitude = k * 2 ^ s
  parity : x.fraction % 2 = k % 2

theorem represents_below
    (negative : Bool) {k : Nat} (small : k < 0x800000) :
    (ofMagnitude negative k).Represents k 0 := by
  rw [ofMagnitude_below negative small]
  have exponent := exponent_ofFields negative (show 0 < 0x100 by decide) k
  have fraction := fraction_ofFields negative 0 small
  refine ⟨by rw [exponent]; decide, ?_, by rw [fraction]⟩
  rw [magnitude, if_pos exponent, fraction, pow_zero, Nat.mul_one]

theorem represents_shifted
    (negative : Bool) {k s : Nat}
    (leading : 0x800000 ≤ k) (small : k < 0x1000000) (inRange : s < 254) :
    (ofMagnitude negative (k * 2 ^ s)).Represents k s := by
  rw [ofMagnitude_shifted negative leading small inRange]
  have exponent :=
    exponent_ofFields negative (show s + 1 < 0x100 by omega) (k - 0x800000)
  have fraction :=
    fraction_ofFields negative (s + 1)
      (show k - 0x800000 < 0x800000 by omega)
  have whole : leadingBit + (k - 0x800000) = k := by
    rw [leadingBit]
    omega
  refine ⟨by rw [exponent]; omega, ?_, by rw [fraction]; omega⟩
  rw [magnitude, exponent, if_neg (Nat.succ_ne_zero s), fraction, whole]
  rfl

theorem lt_of_shifted_lt
    {k s bound : Nat} (leading : 0x800000 ≤ k)
    (inRange : k * 2 ^ s < 0x800000 * 2 ^ bound) : s < bound := by
  by_contra beyond
  have atLeast := Nat.mul_le_mul leading
    (Nat.pow_le_pow_right (show 0 < 2 by decide) (Nat.not_lt.mp beyond))
  omega

/-- The power of two after the largest significand is the first significand of the
next shift. -/
theorem represents_ofMagnitude
    (negative : Bool) {k s : Nat} (grid : OnGrid k s)
    (inRange : k * 2 ^ s < 0x800000 * 2 ^ 254) :
    (ofMagnitude negative (k * 2 ^ s)).Represents k s := by
  rcases grid.small.lt_or_eq with small | top
  · rcases Nat.lt_or_ge k 0x800000 with below | leading
    · have unshifted : s = 0 := by
        have full := grid.full
        omega
      rw [unshifted, pow_zero, Nat.mul_one]
      exact represents_below negative below
    · exact represents_shifted negative leading small
        (lt_of_shifted_lt leading inRange)
  · have carried : k * 2 ^ s = 0x800000 * 2 ^ (s + 1) := by
      rw [top, pow_succ]
      omega
    rw [carried] at inRange ⊢
    have next := represents_shifted negative (Nat.le_refl 0x800000)
      (by decide) (lt_of_shifted_lt (Nat.le_refl _) inRange)
    exact ⟨next.finite, next.magnitude.trans carried.symm,
      next.parity.trans (by rw [top])⟩

@[simp] theorem negative_ofMagnitude (negative : Bool) (m : Nat) :
    (ofMagnitude negative m).negative = negative := by
  rw [ofMagnitude]
  split
  · exact negative_ofFields _ _ _
  · simp only
    split
    · exact negative_ofFields _ _ _
    · exact negative_ofFields _ _ _

end ChipEight.Binary32

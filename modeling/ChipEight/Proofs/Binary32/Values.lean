import ChipEight.Binary32.Literal
import ChipEight.Proofs.Binary32.Nearest

/-!
# Values

The value of a finite number is a rational number.  Rounding a quotient with a sign
gives the number whose value is nearest to it, the even one of two, and this number
is the only one with that sign.  A decimal number is such a quotient, also where its
exponent is so great or so small that the power of ten is not worked out.
-/

namespace ChipEight.Binary32

/-! ## Values with signs -/

/-- A rational number or its opposite. -/
def signed (negative : Bool) (r : ℚ) : ℚ := if negative then -r else r

/-- The value of a finite number. -/
def value (x : Binary32) : ℚ := x.units / 2 ^ 149

/-- A finite number whose value is as close to a rational number as that of any
other finite number, and which has an even fraction if another value is just as
close. -/
structure IsNearest (x : Binary32) (q : ℚ) : Prop where
  finite : x.exponent ≠ 255
  closest : ∀ y : Binary32, y.exponent ≠ 255 → |x.value - q| ≤ |y.value - q|
  even : ∀ y : Binary32, y.exponent ≠ 255 → y.value ≠ x.value →
    |y.value - q| = |x.value - q| → x.fraction % 2 = 0

theorem value_eq (x : Binary32) :
    x.value = signed x.negative (x.magnitude / 2 ^ 149) := by
  rw [value, units, signed]
  split
  · rw [Int.cast_neg, Int.cast_natCast, neg_div]
  · rw [Int.cast_natCast]

section Distance

variable {negative : Bool} {r : ℚ} {x y : Binary32}

theorem distance_of_sameSign (same : y.negative = negative) (r : ℚ) :
    |y.value - signed negative (r / 2 ^ 149)| =
      |(y.magnitude : ℚ) - r| / 2 ^ 149 := by
  have scale : (0 : ℚ) < 2 ^ 149 := by
    positivity
  rw [value_eq, same, signed, signed]
  split
  · rw [← abs_neg, neg_sub, sub_neg_eq_add, neg_add_eq_sub, ← sub_div,
      abs_div, abs_of_pos scale]
  · rw [← sub_div, abs_div, abs_of_pos scale]

theorem distance_of_otherSign
    (other : y.negative ≠ negative) (atLeast : 0 ≤ r) :
    |y.value - signed negative (r / 2 ^ 149)| =
      ((y.magnitude : ℚ) + r) / 2 ^ 149 := by
  have scale : (0 : ℚ) ≤ (y.magnitude + r) / 2 ^ 149 := by
    positivity
  rw [value_eq, signed, signed, ← abs_of_nonneg scale]
  cases negative with
  | false =>
      rw [if_pos (Bool.eq_true_of_not_eq_false other),
        if_neg Bool.false_ne_true, ← abs_neg, neg_sub, sub_neg_eq_add,
        ← add_div, add_comm]
  | true =>
      rw [if_neg other, if_pos rfl, sub_neg_eq_add, ← add_div]

theorem le_distance
    (negative : Bool) (atLeast : 0 ≤ r) (y : Binary32) :
    |(y.magnitude : ℚ) - r| / 2 ^ 149 ≤
      |y.value - signed negative (r / 2 ^ 149)| := by
  by_cases same : y.negative = negative
  · rw [distance_of_sameSign same]
  · rw [distance_of_otherSign same atLeast]
    apply div_le_div_of_nonneg_right _ (by positivity)
    have natural : (0 : ℚ) ≤ y.magnitude := by
      positivity
    rw [abs_le]
    constructor <;> linarith

/-- Every finite magnitude comes with either sign. -/
theorem exists_withSign (negative : Bool) (y : Binary32) :
    ∃ z : Binary32, z.negative = negative ∧ z.exponent = y.exponent ∧
      z.magnitude = y.magnitude := by
  have exponent :=
    exponent_ofFields negative y.exponent_lt y.fraction
  have fraction :=
    fraction_ofFields negative y.exponent y.fraction_lt
  refine ⟨_, negative_ofFields negative y.exponent y.fraction, exponent, ?_⟩
  rw [magnitude, exponent, fraction]
  rfl

theorem value_of_magnitude_zero (zero : x.magnitude = 0) : x.value = 0 := by
  rw [value_eq, zero, Nat.cast_zero, zero_div, signed, neg_zero, ite_self]

theorem hasClosest_of_isNearest
    (nearest : x.IsNearest (signed x.negative (r / 2 ^ 149))) :
    x.HasClosest r := by
  have scale : (0 : ℚ) < 2 ^ 149 := by
    positivity
  have own := distance_of_sameSign (y := x) rfl r
  refine ⟨nearest.finite, ?_, ?_⟩
  · intro y finite
    obtain ⟨z, sign, exponent, magnitude⟩ := exists_withSign x.negative y
    have closest := nearest.closest z (exponent ▸ finite)
    rw [own, distance_of_sameSign sign, magnitude] at closest
    exact (div_le_div_iff_of_pos_right scale).mp closest
  · intro y finite other tie
    obtain ⟨z, sign, exponent, magnitude⟩ := exists_withSign x.negative y
    apply nearest.even z (exponent ▸ finite)
    · intro sameValue
      have sameUnits : z.units = x.units := by
        have scaled := (div_left_inj' scale.ne').mp sameValue
        exact_mod_cast scaled
      rw [units, units, sign, magnitude] at sameUnits
      split at sameUnits <;> omega
    · rw [own, distance_of_sameSign sign, magnitude, tie]

/-- Only zero can be as close from the other side. -/
theorem magnitude_of_tie
    (atLeast : 0 ≤ r) (close : x.HasClosest r)
    (tie : (y.magnitude : ℚ) + r = |(x.magnitude : ℚ) - r|) :
    y.magnitude = 0 := by
  have zero := represents_below false (show 0 < 0x800000 by decide)
  have closest := close.closest _ zero.finite
  rw [zero.magnitude, Nat.zero_mul, Nat.cast_zero, zero_sub, abs_neg,
    abs_of_nonneg atLeast, ← tie] at closest
  have atMost : (y.magnitude : ℚ) ≤ (0 : Nat) := by
    push_cast
    linarith
  exact Nat.le_zero.mp (by exact_mod_cast atMost)

theorem isNearest_of_hasClosest
    (atLeast : 0 ≤ r) (close : x.HasClosest r) :
    x.IsNearest (signed x.negative (r / 2 ^ 149)) := by
  have scale : (0 : ℚ) < 2 ^ 149 := by
    positivity
  have own := distance_of_sameSign (y := x) rfl r
  refine ⟨close.finite, ?_, ?_⟩
  · intro y finite
    rw [own]
    have closest :=
      div_le_div_of_nonneg_right (close.closest y finite) scale.le
    exact closest.trans (le_distance _ atLeast y)
  · intro y finite other tie
    by_cases same : y.negative = x.negative
    · rw [own, distance_of_sameSign same] at tie
      apply close.even y finite _ ((div_left_inj' scale.ne').mp tie)
      intro sameMagnitude
      apply other
      rw [value_eq, value_eq, same, sameMagnitude]
    · rw [own, distance_of_otherSign same atLeast] at tie
      have total := (div_left_inj' scale.ne').mp tie
      have isZero := magnitude_of_tie atLeast close total
      rw [isZero, Nat.cast_zero, zero_add] at total
      apply close.even y finite
      · intro sameMagnitude
        apply other
        rw [value_of_magnitude_zero isZero,
          value_of_magnitude_zero (sameMagnitude ▸ isZero)]
      · rw [isZero, Nat.cast_zero, zero_sub, abs_neg, abs_of_nonneg atLeast]
        exact total

/-- The sign put aside, only magnitudes have to be compared. -/
theorem isNearest_iff (atLeast : 0 ≤ r) :
    x.IsNearest (signed x.negative (r / 2 ^ 149)) ↔ x.HasClosest r :=
  ⟨hasClosest_of_isNearest, isNearest_of_hasClosest atLeast⟩

end Distance

/-! ## Quotients with signs -/

/-- The number that a quotient of units in the range of the format is rounded to is
the nearest with its sign, and the only one. -/
theorem isNearest_iff_eq_nearest
    (num : Nat) {den : Nat} (positive : 0 < den) (negative : Bool)
    (inRange : roundMagnitude num den < 0x800000 * 2 ^ 254) (x : Binary32) :
    x.IsNearest (signed negative ((num : ℚ) / den / 2 ^ 149)) ∧
        x.negative = negative ↔
      x = nearest negative num den := by
  have atLeast : (0 : ℚ) ≤ (num : ℚ) / den := by
    positivity
  constructor
  · rintro ⟨isNearest, rfl⟩
    have close := (isNearest_iff atLeast).mp isNearest
    rw [nearest, ← magnitude_of_hasClosest num positive inRange close,
      ofMagnitude_magnitude close.finite]
  · rintro rfl
    have sign : (nearest negative num den).negative = negative :=
      negative_ofMagnitude _ _
    have close := hasClosest_nearest num positive negative inRange
    refine ⟨?_, sign⟩
    rw [← isNearest_iff atLeast, sign] at close
    exact close

/-! ## Decimal numbers -/

/-- A decimal number as a quotient of units: the numerator. -/
def decimalUnits (digits : Nat) (exponent : Int) : Nat :=
  digits * Nat.pow 10 exponent.toNat * unitsInOne

/-- A decimal number as a quotient of units: the denominator. -/
def decimalDivisor (exponent : Int) : Nat := Nat.pow 10 (-exponent).toNat

theorem decimalDivisor_pos (exponent : Int) : 0 < decimalDivisor exponent :=
  Nat.pow_pos (by decide)

theorem decimalUnits_div (digits : Nat) (exponent : Int) :
    (decimalUnits digits exponent : ℚ) / decimalDivisor exponent / 2 ^ 149 =
      digits * 10 ^ exponent := by
  have split : exponent = (exponent.toNat : ℤ) - ((-exponent).toNat : ℤ) :=
    (Int.toNat_sub_toNat_neg exponent).symm
  have power :
      (10 : ℚ) ^ exponent =
        10 ^ exponent.toNat / 10 ^ (-exponent).toNat := by
    conv_lhs => rw [split]
    rw [zpow_sub₀ (by norm_num), zpow_natCast, zpow_natCast]
  have numerator :
      (decimalUnits digits exponent : ℚ) =
        digits * 10 ^ exponent.toNat * 2 ^ 149 := by
    rw [decimalUnits, unitsInOne]
    push_cast [Nat.pow_eq]
    rfl
  have denominator :
      (decimalDivisor exponent : ℚ) = 10 ^ (-exponent).toNat := by
    rw [decimalDivisor]
    push_cast [Nat.pow_eq]
    rfl
  rw [numerator, denominator, power]
  field_simp

theorem nearest_of_small
    (negative : Bool) {num den : Nat} (positive : 0 < den)
    (small : 2 * num ≤ den) : nearest negative num den = zero negative := by
  have divisor : (0 : ℚ) < den := Nat.cast_pos.mpr positive
  have half : (num : ℚ) / den ≤ ((0 : Nat) + 1 / 2) * 2 ^ 0 := by
    rw [Nat.cast_zero, zero_add, pow_zero, mul_one,
      div_le_div_iff₀ divisor two_pos, one_mul, mul_comm]
    exact_mod_cast small
  have isZero : roundMagnitude num den = 0 := by
    have atMost :=
      (roundMagnitude_le_iff num positive rfl (by decide) (Or.inl rfl)).mpr
        half
    omega
  rw [nearest, isZero]
  rfl

theorem nearest_of_large
    (negative : Bool) {num den : Nat} (positive : 0 < den)
    (large : 0x800000 * 2 ^ 254 ≤ num / den) :
    nearest negative num den = infinity negative :=
  ofMagnitude_beyond negative (beyond_roundMagnitude num positive large)

theorem decimal_small
    {digits : Nat} {exponent : Int}
    (tiny : digits = 0 ∨ (digits.log2 : Int) + 1 < 3 * (-exponent - 51)) :
    2 * decimalUnits digits exponent ≤ decimalDivisor exponent := by
  rcases tiny with zero | low
  · rw [decimalUnits, zero, Nat.zero_mul, Nat.zero_mul]
    exact Nat.zero_le _
  · obtain ⟨places, further⟩ : ∃ places : Nat, -exponent = places + 51 :=
      ⟨(-exponent - 51).toNat, by omega⟩
    have noPower : exponent.toNat = 0 := by
      omega
    have scale : (-exponent).toNat = places + 51 := by
      omega
    have digitsSmall : digits ≤ 10 ^ places :=
      calc
        digits ≤ 2 ^ (digits.log2 + 1) := Nat.lt_log2_self.le
        _ ≤ 2 ^ (3 * places) := Nat.pow_le_pow_right (by decide) (by omega)
        _ = 8 ^ places := pow_mul 2 3 places
        _ ≤ 10 ^ places := Nat.pow_le_pow_left (by decide) places
    have unitSmall : 2 * 2 ^ 149 ≤ 10 ^ 51 := by
      norm_num
    calc
      2 * decimalUnits digits exponent = digits * (2 * 2 ^ 149) := by
        rw [decimalUnits, noPower, unitsInOne, Nat.pow_eq, Nat.pow_eq]
        ring
      _ ≤ 10 ^ places * 10 ^ 51 := Nat.mul_le_mul digitsSmall unitSmall
      _ = decimalDivisor exponent := by
        rw [decimalDivisor, scale, ← pow_add]
        rfl

theorem decimal_large
    {digits : Nat} {exponent : Int}
    (nonzero : digits ≠ 0) (high : 40 < exponent) :
    0x800000 * 2 ^ 254 ≤
      decimalUnits digits exponent / decimalDivisor exponent := by
  have noScale : (-exponent).toNat = 0 := by
    omega
  have power : 10 ^ 41 ≤ 10 ^ exponent.toNat :=
    Nat.pow_le_pow_right (by decide) (by omega)
  have beyond : 2 ^ 128 ≤ 10 ^ 41 := by
    norm_num
  have one : decimalDivisor exponent = 1 := by
    rw [decimalDivisor, noScale]
  rw [one, Nat.div_one]
  calc
    0x800000 * 2 ^ 254 = 2 ^ (23 + 254) := (pow_add 2 23 254).symm
    _ = 1 * 2 ^ 128 * 2 ^ 149 := by
      rw [one_mul, ← pow_add]
    _ ≤ digits * 10 ^ exponent.toNat * 2 ^ 149 :=
      Nat.mul_le_mul_right _
        (Nat.mul_le_mul (Nat.pos_of_ne_zero nonzero) (beyond.trans power))
    _ = decimalUnits digits exponent := rfl

/-- The answers given without working out the power of ten are right. -/
theorem ofDecimal_eq_nearest
    (negative : Bool) (digits : Nat) (exponent : Int) :
    ofDecimal negative digits exponent =
      nearest negative (decimalUnits digits exponent)
        (decimalDivisor exponent) := by
  have positive := decimalDivisor_pos exponent
  rw [ofDecimal]
  split
  next tiny =>
    exact (nearest_of_small negative positive (decimal_small tiny)).symm
  next notTiny =>
    split
    next high =>
      have nonzero : digits ≠ 0 := fun zero => notTiny (Or.inl zero)
      exact (nearest_of_large negative positive
        (decimal_large nonzero high)).symm
    next =>
      rfl

end ChipEight.Binary32

import ChipEight.Proofs.Binary32.Fields
import Mathlib.Algebra.Order.Field.Basic
import Mathlib.Tactic.FieldSimp
import Mathlib.Tactic.Positivity

/-!
# The nearest magnitude

A quotient is rounded to a whole number of steps, the distance between the
magnitudes of the format around it.  No finite number of the format has a magnitude
closer to the quotient, and of two that are equally close the rounded one is even,
so it is the only one.  An even magnitude of the format is exceeded exactly beyond
half way to the next one.
-/

namespace ChipEight.Binary32

/-! ## Quotients -/

/-- A whole number at most one half away from a rational number, and an even one
if it is one half away. -/
structure RoundsTo (t : ℚ) (k : Nat) : Prop where
  close : |(k : ℚ) - t| ≤ 1 / 2
  even : |(k : ℚ) - t| = 1 / 2 → k % 2 = 0

/-- What is left of a quotient after its whole part. -/
theorem div_eq_floor_add (num : Nat) {den : Nat} (positive : 0 < den) :
    (num : ℚ) / den =
      (num / den : Nat) + ((num % den : Nat) : ℚ) / den := by
  have divisor : (den : ℚ) ≠ 0 := Nat.cast_ne_zero.mpr positive.ne'
  have parts : (num : ℚ) = den * (num / den : Nat) + (num % den : Nat) := by
    exact_mod_cast (Nat.div_add_mod num den).symm
  rw [div_eq_iff divisor, add_mul, div_mul_cancel₀ _ divisor, parts, mul_comm]

theorem roundsTo_floor
    (floor : Nat) {part : ℚ} (atLeast : 0 ≤ part) (small : part < 1 / 2) :
    RoundsTo (floor + part) floor := by
  have distance : |(floor : ℚ) - (floor + part)| = part := by
    rw [sub_add_cancel_left, abs_neg, abs_of_nonneg atLeast]
  constructor
  · rw [distance]
    exact small.le
  · intro half
    rw [distance] at half
    exact absurd half small.ne

theorem roundsTo_next
    (floor : Nat) {part : ℚ} (large : 1 / 2 < part) (inside : part < 1) :
    RoundsTo (floor + part) (floor + 1) := by
  have distance : |((floor + 1 : Nat) : ℚ) - (floor + part)| = 1 - part := by
    rw [Nat.cast_add, Nat.cast_one, add_sub_add_left_eq_sub,
      abs_of_nonneg (sub_nonneg.mpr inside.le)]
  constructor
  · rw [distance]
    linarith
  · intro half
    rw [distance] at half
    linarith

theorem roundsTo_even (floor : Nat) :
    RoundsTo (floor + 1 / 2) (floor + floor % 2) := by
  have isEven : (floor + floor % 2) % 2 = 0 := by
    omega
  refine ⟨le_of_eq ?_, fun _ => isEven⟩
  rw [Nat.cast_add, add_sub_add_left_eq_sub]
  rcases Nat.mod_two_eq_zero_or_one floor with even | odd
  · rw [even]
    norm_num
  · rw [odd]
    norm_num

/-- Rounding looks at the part of a quotient beyond its whole part. -/
theorem roundsTo_roundQuotient (num : Nat) {den : Nat} (positive : 0 < den) :
    RoundsTo ((num : ℚ) / den) (roundQuotient num den) := by
  have divisor : (0 : ℚ) < den := Nat.cast_pos.mpr positive
  have inside : ((num % den : Nat) : ℚ) / den < 1 := by
    rw [div_lt_one divisor]
    exact_mod_cast Nat.mod_lt num positive
  have atLeast : (0 : ℚ) ≤ ((num % den : Nat) : ℚ) / den := by
    positivity
  have lower :
      2 * (num % den) < den ↔ ((num % den : Nat) : ℚ) / den < 1 / 2 := by
    rw [div_lt_div_iff₀ divisor two_pos, one_mul, mul_comm]
    exact_mod_cast Iff.rfl
  have upper :
      den < 2 * (num % den) ↔ 1 / 2 < ((num % den : Nat) : ℚ) / den := by
    rw [div_lt_div_iff₀ two_pos divisor, one_mul, mul_comm]
    exact_mod_cast Iff.rfl
  rw [div_eq_floor_add num positive, roundQuotient]
  split
  next isLower =>
    exact roundsTo_floor _ atLeast (lower.mp isLower)
  next notLower =>
    split
    next isUpper =>
      exact roundsTo_next _ (upper.mp isUpper) inside
    next notUpper =>
      have half : ((num % den : Nat) : ℚ) / den = 1 / 2 :=
        le_antisymm (not_lt.mp (mt upper.mpr notUpper))
          (not_lt.mp (mt lower.mpr notLower))
      rw [half]
      exact roundsTo_even _

theorem RoundsTo.le_abs_sub
    {t : ℚ} {k j : Nat} (rounds : RoundsTo t k) (other : j ≠ k) :
    1 / 2 ≤ |(j : ℚ) - t| := by
  have apart : (1 : ℚ) ≤ |(j : ℚ) - k| := by
    have whole : (1 : ℤ) ≤ |(j : ℤ) - k| := by
      apply Int.one_le_abs
      omega
    exact_mod_cast whole
  have through := abs_sub_le (j : ℚ) t k
  rw [abs_sub_comm t k] at through
  have close := rounds.close
  linarith

theorem RoundsTo.closest
    {t : ℚ} {k : Nat} (rounds : RoundsTo t k) (j : Nat) :
    |(k : ℚ) - t| ≤ |(j : ℚ) - t| := by
  by_cases same : j = k
  · rw [same]
  · exact rounds.close.trans (rounds.le_abs_sub same)

theorem RoundsTo.half_of_tie
    {t : ℚ} {k j : Nat} (rounds : RoundsTo t k) (other : j ≠ k)
    (tie : |(j : ℚ) - t| = |(k : ℚ) - t|) : |(j : ℚ) - t| = 1 / 2 := by
  apply le_antisymm
  · rw [tie]
    exact rounds.close
  · exact rounds.le_abs_sub other

theorem RoundsTo.le_iff_of_even
    {t : ℚ} {k j : Nat} (rounds : RoundsTo t k) (even : j % 2 = 0) :
    k ≤ j ↔ t ≤ j + 1 / 2 := by
  obtain ⟨lower, upper⟩ := abs_le.mp rounds.close
  constructor
  · intro atMost
    have atMostQ : (k : ℚ) ≤ j := by
      exact_mod_cast atMost
    linarith
  · intro atMost
    by_contra above
    have next : (j : ℚ) + 1 ≤ k := by
      exact_mod_cast Nat.not_le.mp above
    have half : (k : ℚ) - t = 1 / 2 := by
      linarith
    have isEven : k % 2 = 0 := by
      apply rounds.even
      rw [half]
      norm_num
    have isNext : (k : ℚ) = (j + 1 : Nat) := by
      push_cast
      linarith
    have same : k = j + 1 := by
      exact_mod_cast isNext
    omega

/-! ## Steps of the grid -/

/-- The shift of the magnitudes around a quotient. -/
def gridShift (num den : Nat) : Nat := (num / den).log2 - 23

/-- A quotient counted in the distance between the magnitudes around it. -/
def steps (num den : Nat) : ℚ :=
  (num : ℚ) / (den * 2 ^ gridShift num den : Nat)

theorem floor_bounds (floor : Nat) :
    floor < 0x1000000 * 2 ^ (floor.log2 - 23) ∧
      (floor.log2 - 23 = 0 ∨ 0x800000 * 2 ^ (floor.log2 - 23) ≤ floor) := by
  rcases Nat.lt_or_ge floor 0x1000000 with small | large
  · have shift : floor.log2 - 23 = 0 := by
      have atMost : floor.log2 < 24 ∨ floor = 0 := by
        by_cases zero : floor = 0
        · exact Or.inr zero
        · exact Or.inl ((Nat.log2_lt zero).mpr small)
      rcases atMost with below | zero
      · omega
      · rw [zero]
        rfl
    rw [shift]
    exact ⟨small, Or.inl rfl⟩
  · have nonzero : floor ≠ 0 := by
      omega
    have atLeast : 24 ≤ floor.log2 := (Nat.le_log2 nonzero).mpr large
    have split : floor.log2 = 23 + (floor.log2 - 23) := by
      omega
    have lower : 2 ^ floor.log2 ≤ floor := Nat.log2_self_le nonzero
    have upper : floor < 2 ^ (floor.log2 + 1) := Nat.lt_log2_self
    rw [split, pow_add] at lower
    rw [pow_succ, split, pow_add] at upper
    exact ⟨by omega, Or.inr lower⟩

theorem steps_mul (num den : Nat) :
    steps num den * 2 ^ gridShift num den = (num : ℚ) / den := by
  rw [steps, Nat.cast_mul, Nat.cast_pow, Nat.cast_ofNat, ← div_div]
  exact div_mul_cancel₀ _ (pow_ne_zero _ two_ne_zero)

theorem distance_eq (num den k : Nat) :
    |((k * 2 ^ gridShift num den : Nat) : ℚ) - num / den| =
      |(k : ℚ) - steps num den| * 2 ^ gridShift num den := by
  have scale : (0 : ℚ) < 2 ^ gridShift num den := by
    positivity
  rw [← steps_mul, Nat.cast_mul, Nat.cast_pow, Nat.cast_ofNat, ← sub_mul,
    abs_mul, abs_of_pos scale]

section Steps

variable (num : Nat) {den : Nat} (positive : 0 < den)

include positive

theorem floor_le : ((num / den : Nat) : ℚ) ≤ (num : ℚ) / den := by
  rw [div_eq_floor_add num positive]
  exact le_add_of_nonneg_right (by positivity)

theorem lt_floor_succ : (num : ℚ) / den < ((num / den + 1 : Nat) : ℚ) := by
  have divisor : (0 : ℚ) < den := Nat.cast_pos.mpr positive
  rw [div_eq_floor_add num positive, Nat.cast_add_one,
    add_lt_add_iff_left, div_lt_one divisor]
  exact_mod_cast Nat.mod_lt num positive

theorem steps_lt : steps num den < 0x1000000 := by
  have scale : (0 : ℚ) < 2 ^ gridShift num den := by
    positivity
  have upper : num / den + 1 ≤ 0x1000000 * 2 ^ gridShift num den :=
    (floor_bounds (num / den)).1
  have upperQ :
      ((num / den + 1 : Nat) : ℚ) ≤
        0x1000000 * 2 ^ gridShift num den := by
    exact_mod_cast upper
  apply lt_of_mul_lt_mul_right _ scale.le
  rw [steps_mul]
  exact (lt_floor_succ num positive).trans_le upperQ

theorem le_steps :
    gridShift num den = 0 ∨ (0x800000 : ℚ) ≤ steps num den := by
  have scale : (0 : ℚ) < 2 ^ gridShift num den := by
    positivity
  rcases (floor_bounds (num / den)).2 with unshifted | lower
  · exact Or.inl unshifted
  · have lowerQ :
        (0x800000 : ℚ) * 2 ^ gridShift num den ≤
          ((num / den : Nat) : ℚ) := by
      exact_mod_cast lower
    right
    apply le_of_mul_le_mul_right _ scale
    rw [steps_mul]
    exact lowerQ.trans (floor_le num positive)

theorem onGrid_of_close
    {j : Nat} (close : |(j : ℚ) - steps num den| ≤ 1 / 2) :
    OnGrid j (gridShift num den) := by
  obtain ⟨lower, upper⟩ := abs_le.mp close
  have below := steps_lt num positive
  constructor
  · have : (j : ℚ) < (0x1000000 + 1 : Nat) := by
      push_cast
      linarith
    exact Nat.lt_succ_iff.mp (by exact_mod_cast this)
  · rcases le_steps num positive with unshifted | atLeast
    · exact Or.inl unshifted
    · right
      have leading : ((0x800000 : Nat) : ℚ) < (j + 1 : Nat) := by
        push_cast
        linarith
      exact Nat.lt_succ_iff.mp (by exact_mod_cast leading)

theorem exists_roundsTo :
    ∃ k, roundMagnitude num den = k * 2 ^ gridShift num den ∧
      RoundsTo (steps num den) k := by
  have scaled : 0 < den * 2 ^ gridShift num den :=
    Nat.mul_pos positive (Nat.two_pow_pos _)
  exact ⟨_, rfl, roundsTo_roundQuotient num scaled⟩

/-- A magnitude that is no multiple of the distance lies below the magnitudes around
the quotient, and so does not come as close. -/
theorem multiple_or_farther
    {k : Nat} (rounds : RoundsTo (steps num den) k) (y : Binary32) :
    (∃ j, y.magnitude = j * 2 ^ gridShift num den) ∨
      |((k * 2 ^ gridShift num den : Nat) : ℚ) - num / den| <
        |(y.magnitude : ℚ) - num / den| := by
  rcases Nat.lt_or_ge (y.exponent - 1) (gridShift num den) with finer | coarser
  · right
    have scale : (0 : ℚ) < 2 ^ gridShift num den := by
      positivity
    have below : y.magnitude < 0x800000 * 2 ^ gridShift num den := by
      have atMost : 2 ^ (y.exponent - 1 + 1) ≤ 2 ^ gridShift num den :=
        Nat.pow_le_pow_right (by decide) finer
      have bounded :
          y.significand * 2 ^ (y.exponent - 1) <
            0x1000000 * 2 ^ (y.exponent - 1) :=
        Nat.mul_lt_mul_of_pos_right y.significand_lt (Nat.two_pow_pos _)
      rw [magnitude_eq]
      rw [pow_succ] at atMost
      omega
    have belowQ :
        (y.magnitude : ℚ) < 0x800000 * 2 ^ gridShift num den := by
      exact_mod_cast below
    have atLeast : (0x800000 : ℚ) ≤ steps num den :=
      (le_steps num positive).resolve_left (by omega)
    have near : |(k : ℚ) - steps num den| ≤ steps num den - 0x800000 := by
      rw [← abs_of_nonneg (sub_nonneg.mpr atLeast), abs_sub_comm (steps _ _)]
      exact_mod_cast rounds.closest 0x800000
    calc
      _ = |(k : ℚ) - steps num den| * 2 ^ gridShift num den :=
        distance_eq num den k
      _ ≤ (steps num den - 0x800000) * 2 ^ gridShift num den :=
        mul_le_mul_of_nonneg_right near scale.le
      _ = (num : ℚ) / den - 0x800000 * 2 ^ gridShift num den := by
        rw [sub_mul, steps_mul]
      _ < (num : ℚ) / den - y.magnitude := sub_lt_sub_left belowQ _
      _ ≤ |(y.magnitude : ℚ) - num / den| := by
        rw [abs_sub_comm]
        exact le_abs_self _
  · left
    refine ⟨y.significand * 2 ^ (y.exponent - 1 - gridShift num den), ?_⟩
    rw [magnitude_eq, Nat.mul_assoc, ← pow_add, Nat.sub_add_cancel coarser]

end Steps

/-! ## The closest magnitude -/

/-- A finite number whose magnitude is as close to a rational number as that of any
other, and has an even fraction if another is just as close. -/
structure HasClosest (x : Binary32) (r : ℚ) : Prop where
  finite : x.exponent ≠ 255
  closest : ∀ y : Binary32, y.exponent ≠ 255 →
    |(x.magnitude : ℚ) - r| ≤ |(y.magnitude : ℚ) - r|
  even : ∀ y : Binary32, y.exponent ≠ 255 → y.magnitude ≠ x.magnitude →
    |(y.magnitude : ℚ) - r| = |(x.magnitude : ℚ) - r| →
      x.fraction % 2 = 0

section Closest

variable (num : Nat) {den : Nat} (positive : 0 < den)

include positive

theorem hasClosest_nearest
    (negative : Bool)
    (inRange : roundMagnitude num den < 0x800000 * 2 ^ 254) :
    (nearest negative num den).HasClosest ((num : ℚ) / den) := by
  obtain ⟨k, magnitude, rounds⟩ := exists_roundsTo num positive
  have scale : (0 : ℚ) < 2 ^ gridShift num den := by
    positivity
  have grid := onGrid_of_close num positive rounds.close
  rw [magnitude] at inRange
  have represents := represents_ofMagnitude negative grid inRange
  rw [nearest, magnitude]
  refine ⟨represents.finite, ?_, ?_⟩
  · intro y _
    rw [represents.magnitude]
    rcases multiple_or_farther num positive rounds y with ⟨j, multiple⟩ | farther
    · rw [multiple, distance_eq, distance_eq]
      exact mul_le_mul_of_nonneg_right (rounds.closest j) scale.le
    · exact farther.le
  · intro y _ other tie
    rw [represents.magnitude] at other tie
    rw [represents.parity]
    rcases multiple_or_farther num positive rounds y with ⟨j, multiple⟩ | farther
    · rw [multiple, distance_eq, distance_eq] at tie
      have sameDistance := mul_right_cancel₀ scale.ne' tie
      have apart : j ≠ k := by
        rintro rfl
        exact other multiple
      apply rounds.even
      rw [← sameDistance]
      exact rounds.half_of_tie apart sameDistance
    · exact absurd tie farther.ne'

/-- Only the rounded magnitude is closest: of two neighbours that are equally close
one is odd. -/
theorem magnitude_of_hasClosest
    {x : Binary32}
    (inRange : roundMagnitude num den < 0x800000 * 2 ^ 254)
    (close : x.HasClosest ((num : ℚ) / den)) :
    x.magnitude = roundMagnitude num den := by
  obtain ⟨k, magnitude, rounds⟩ := exists_roundsTo num positive
  have scale : (0 : ℚ) < 2 ^ gridShift num den := by
    positivity
  have grid := onGrid_of_close num positive rounds.close
  rw [magnitude] at inRange ⊢
  have represents := represents_ofMagnitude x.negative grid inRange
  by_contra other
  have nearer := close.closest _ represents.finite
  rw [represents.magnitude] at nearer
  rcases multiple_or_farther num positive rounds x with ⟨j, multiple⟩ | farther
  · have apart : j ≠ k := by
      rintro rfl
      exact other multiple
    rw [multiple, distance_eq, distance_eq] at nearer
    have sameDistance :
        |(j : ℚ) - steps num den| = |(k : ℚ) - steps num den| :=
      le_antisymm (le_of_mul_le_mul_right nearer scale) (rounds.closest j)
    have half := rounds.half_of_tie apart sameDistance
    have kEven : k % 2 = 0 := rounds.even (sameDistance ▸ half)
    have jEven : j % 2 = 0 := by
      have inFormat := magnitude_lt close.finite
      rw [multiple] at inFormat
      have own := represents_ofMagnitude x.negative
        (onGrid_of_close num positive half.le) inFormat
      rw [← multiple, ofMagnitude_magnitude close.finite] at own
      rw [← own.parity]
      apply close.even _ represents.finite
      · rw [represents.magnitude]
        exact Ne.symm other
      · rw [represents.magnitude, multiple, distance_eq, distance_eq,
          sameDistance]
    have neighbours : |(j : ℤ) - k| ≤ 1 := by
      have through := abs_sub_le (j : ℚ) (steps num den) k
      rw [abs_sub_comm (steps num den), ← sameDistance, half] at through
      have atMost : |(j : ℚ) - k| ≤ 1 := by
        linarith
      exact_mod_cast atMost
    rw [abs_le] at neighbours
    omega
  · exact absurd nearer farther.not_ge

/-- An even magnitude of the grid is not exceeded exactly up to half way to the next
one.  Where the grid around the quotient is finer or coarser than at that magnitude,
both sides of this are settled. -/
theorem roundMagnitude_le_iff
    {j s : Nat} (even : j % 2 = 0) (small : j < 0x1000000)
    (full : s = 0 ∨ 0x800000 ≤ j) :
    roundMagnitude num den ≤ j * 2 ^ s ↔
      (num : ℚ) / den ≤ (j + 1 / 2) * 2 ^ s := by
  obtain ⟨k, magnitude, rounds⟩ := exists_roundsTo num positive
  have grid := onGrid_of_close num positive rounds.close
  have scale : (0 : ℚ) < 2 ^ s := by
    positivity
  have ownScale : (0 : ℚ) < 2 ^ gridShift num den := by
    positivity
  rw [magnitude, ← steps_mul]
  rcases Nat.lt_trichotomy (gridShift num den) s with finer | same | coarser
  · have atMost : 2 ^ (gridShift num den + 1) ≤ 2 ^ s :=
      Nat.pow_le_pow_right (by decide) finer
    have leading : 0x800000 * 2 ^ s ≤ j * 2 ^ s :=
      Nat.mul_le_mul_right _ (by omega)
    have inside : 0x1000000 * 2 ^ gridShift num den ≤ j * 2 ^ s := by
      rw [pow_succ] at atMost
      omega
    have insideQ :
        (0x1000000 : ℚ) * 2 ^ gridShift num den ≤ j * 2 ^ s := by
      exact_mod_cast inside
    apply iff_of_true
    · exact (Nat.mul_le_mul_right _ grid.small).trans inside
    · have below := mul_le_mul_of_nonneg_right
        (steps_lt num positive).le ownScale.le
      linarith
  · rw [same, Nat.mul_le_mul_right_iff (Nat.two_pow_pos s),
      mul_le_mul_iff_left₀ scale]
    exact rounds.le_iff_of_even even
  · have atLeast : 2 ^ (s + 1) ≤ 2 ^ gridShift num den :=
      Nat.pow_le_pow_right (by decide) coarser
    have top : (j + 1) * 2 ^ s ≤ 0x1000000 * 2 ^ s :=
      Nat.mul_le_mul_right _ small
    have outside : (j + 1) * 2 ^ s ≤ 0x800000 * 2 ^ gridShift num den := by
      rw [pow_succ] at atLeast
      omega
    have outsideQ :
        ((j : ℚ) + 1) * 2 ^ s ≤ 0x800000 * 2 ^ gridShift num den := by
      exact_mod_cast outside
    have positiveScale := Nat.two_pow_pos s
    apply iff_of_false
    · have leading := Nat.mul_le_mul_right (2 ^ gridShift num den)
        (grid.full.resolve_left (by omega))
      rw [Nat.succ_mul] at outside
      omega
    · have leading := mul_le_mul_of_nonneg_right
        ((le_steps num positive).resolve_left (by omega)) ownScale.le
      linarith

/-- A quotient beyond the format is rounded to a magnitude beyond it. -/
theorem beyond_roundMagnitude
    (beyond : 0x800000 * 2 ^ 254 ≤ num / den) :
    0x800000 * 2 ^ 254 ≤ roundMagnitude num den := by
  obtain ⟨k, magnitude, rounds⟩ := exists_roundsTo num positive
  have grid := onGrid_of_close num positive rounds.close
  have power : 2 ^ (23 + 254) ≤ num / den := (pow_add 2 23 254).trans_le beyond
  have far : 254 ≤ gridShift num den := by
    have nonzero : num / den ≠ 0 := by
      have positivePower := Nat.two_pow_pos 254
      omega
    have atLeast := (Nat.le_log2 nonzero).mpr power
    rw [gridShift]
    omega
  rw [magnitude]
  exact Nat.mul_le_mul (grid.full.resolve_left (by omega))
    (Nat.pow_le_pow_right (by decide) far)

end Closest

end ChipEight.Binary32

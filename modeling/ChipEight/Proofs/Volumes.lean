import ChipEight.Proofs.Binary32.Literals
import ChipEight.Sound.Volume

/-!
# Volumes

A text is read as a volume exactly if it is that of a decimal number which is rounded
into the range from zero to one.  The ends of that range have even fractions, so the
numbers half way to their neighbours outside are rounded into it too.
-/

namespace ChipEight.Volume

open Binary32

/-! ## The range -/

theorem inRange_iff (x : Binary32) :
    inRange x = true ↔ x.isNaN = false ∧ 0 ≤ x.value ∧ x.value ≤ 1 := by
  have scale : (0 : ℚ) < 2 ^ 149 := by
    positivity
  have zeroUnits : (zero false).units = 0 := by decide
  have oneUnits : one.units = unitsInOne := by decide
  have unit : ((unitsInOne : ℤ) : ℚ) = 2 ^ 149 := by
    rw [unitsInOne, Nat.pow_eq]
    push_cast
    rfl
  have zeroIsNumber : (zero false).isNaN = false := by decide
  have oneIsNumber : one.isNaN = false := by decide
  have atLeast : 0 ≤ x.value ↔ 0 ≤ x.units := by
    rw [value, le_div_iff₀ scale, zero_mul]
    exact Int.cast_nonneg_iff
  have atMost : x.value ≤ 1 ↔ x.units ≤ unitsInOne := by
    rw [value, div_le_one scale, ← unit]
    exact Int.cast_le
  rw [inRange, le, le, zeroUnits, oneUnits, zeroIsNumber, oneIsNumber,
    atLeast, atMost]
  cases x.isNaN <;> simp

theorem signed_inRange_iff (negative : Bool) (m : Nat) :
    0 ≤ signed negative (m / 2 ^ 149) ∧ signed negative (m / 2 ^ 149) ≤ 1 ↔
      (negative = true → m ≤ 0 * 2 ^ 0) ∧ m ≤ 0x800000 * 2 ^ 126 := by
  have scale : (0 : ℚ) < 2 ^ 149 := by
    positivity
  have atLeast : (0 : ℚ) ≤ m / 2 ^ 149 := by
    positivity
  have one : 0x800000 * 2 ^ 126 = 2 ^ 149 := (pow_add 2 23 126).symm
  have atMost : (m : ℚ) / 2 ^ 149 ≤ 1 ↔ m ≤ 2 ^ 149 := by
    rw [div_le_one scale]
    exact_mod_cast Iff.rfl
  have isZero : (m : ℚ) / 2 ^ 149 ≤ 0 ↔ m = 0 := by
    rw [div_le_iff₀ scale, zero_mul]
    exact_mod_cast Nat.le_zero
  rw [one, Nat.zero_mul, Nat.le_zero, signed]
  cases negative with
  | false =>
      rw [if_neg Bool.false_ne_true, atMost]
      constructor
      · intro inside
        exact ⟨fun minus => absurd minus Bool.false_ne_true, inside.2⟩
      · exact fun inside => ⟨atLeast, inside.2⟩
  | true =>
      rw [if_pos rfl, neg_nonneg, isZero]
      constructor
      · rintro ⟨rfl, -⟩
        exact ⟨fun _ => rfl, Nat.zero_le _⟩
      · rintro ⟨zero, -⟩
        exact ⟨zero rfl, by linarith⟩

theorem isNaN_of_finite {x : Binary32} (finite : x.exponent ≠ 255) :
    x.isNaN = false := by
  rw [isNaN, beq_eq_false_iff_ne.mpr finite, Bool.false_and]

theorem not_inRange_infinity (negative : Bool) :
    inRange (infinity negative) = false := by
  cases negative <;> decide

theorem not_inRange_notNumber (negative : Bool) :
    inRange (ofFields negative 255 0x400000) = false := by
  cases negative <;> decide

/-! ## Rounding into the range -/

section Quotient

variable (num : Nat) {den : Nat} (positive : 0 < den)

include positive

theorem inRange_nearest_iff_magnitude (negative : Bool) :
    inRange (nearest negative num den) = true ↔
      (negative = true → roundMagnitude num den ≤ 0 * 2 ^ 0) ∧
        roundMagnitude num den ≤ 0x800000 * 2 ^ 126 := by
  rcases Nat.lt_or_ge (roundMagnitude num den) (0x800000 * 2 ^ 254) with
    inFormat | beyond
  · obtain ⟨k, magnitude, rounds⟩ := exists_roundsTo num positive
    have represents := represents_ofMagnitude negative
      (onGrid_of_close num positive rounds.close) (magnitude ▸ inFormat)
    rw [← magnitude] at represents
    rw [inRange_iff, nearest, value_eq, negative_ofMagnitude,
      represents.magnitude, ← magnitude, signed_inRange_iff]
    exact and_iff_right (isNaN_of_finite represents.finite)
  · have above : 0x800000 * 2 ^ 126 < roundMagnitude num den := by
      have further : 2 ^ 126 < 2 ^ 254 :=
        Nat.pow_lt_pow_right (by decide) (by decide)
      omega
    rw [nearest, ofMagnitude_beyond negative beyond,
      not_inRange_infinity negative]
    exact iff_of_false Bool.false_ne_true fun inside => above.not_ge inside.2

theorem inRange_nearest_iff (negative : Bool) :
    inRange (nearest negative num den) = true ↔
      -(1 / 2 ^ 150) ≤ signed negative ((num : ℚ) / den / 2 ^ 149) ∧
        signed negative ((num : ℚ) / den / 2 ^ 149) ≤ 1 + 1 / 2 ^ 24 := by
  have scale : (0 : ℚ) < 2 ^ 149 := by
    positivity
  have atLeast : (0 : ℚ) ≤ (num : ℚ) / den / 2 ^ 149 := by
    positivity
  have belowZero :
      roundMagnitude num den ≤ 0 * 2 ^ 0 ↔
        (num : ℚ) / den / 2 ^ 149 ≤ 1 / 2 ^ 150 := by
    rw [roundMagnitude_le_iff num positive rfl (by decide) (Or.inl rfl),
      div_le_iff₀ scale]
    norm_num
  have aboveOne :
      roundMagnitude num den ≤ 0x800000 * 2 ^ 126 ↔
        (num : ℚ) / den / 2 ^ 149 ≤ 1 + 1 / 2 ^ 24 := by
    rw [roundMagnitude_le_iff num positive rfl (by decide)
      (Or.inr (Nat.le_refl _)), div_le_iff₀ scale]
    norm_num
  have half : (1 : ℚ) / 2 ^ 150 ≤ 1 + 1 / 2 ^ 24 := by
    norm_num
  rw [inRange_nearest_iff_magnitude num positive, belowZero, aboveOne, signed]
  cases negative with
  | false =>
      rw [if_neg Bool.false_ne_true]
      refine and_congr_left' (iff_of_true ?_ ?_)
      · exact fun minus => absurd minus Bool.false_ne_true
      · exact le_trans (neg_nonpos.mpr (by positivity)) atLeast
  | true =>
      rw [if_pos rfl, neg_le_neg_iff]
      constructor
      · rintro ⟨near, -⟩
        exact ⟨near rfl, by linarith⟩
      · rintro ⟨near, -⟩
        exact ⟨fun _ => near, near.trans half⟩

end Quotient

theorem inRange_ofDecimal_iff
    (negative : Bool) (digits : Nat) (exponent : Int) :
    inRange (ofDecimal negative digits exponent) = true ↔
      -(1 / 2 ^ 150) ≤ signed negative (digits * 10 ^ exponent) ∧
        signed negative (digits * 10 ^ exponent) ≤ 1 + 1 / 2 ^ 24 := by
  rw [ofDecimal_eq_nearest,
    inRange_nearest_iff _ (decimalDivisor_pos exponent), decimalUnits_div]

/-- A number that is rounded into the range is rounded to the nearest one. -/
theorem isNearest_iff_eq_ofDecimal
    {negative : Bool} {digits : Nat} {exponent : Int}
    (inside : inRange (ofDecimal negative digits exponent) = true)
    (x : Binary32) :
    x.IsNearest (signed negative (digits * 10 ^ exponent)) ∧
        x.negative = negative ↔
      x = ofDecimal negative digits exponent := by
  have positive := decimalDivisor_pos exponent
  rw [ofDecimal_eq_nearest] at inside ⊢
  have atMost :=
    ((inRange_nearest_iff_magnitude _ positive negative).mp inside).2
  have further : 2 ^ 126 < 2 ^ 254 :=
    Nat.pow_lt_pow_right (by decide) (by decide)
  rw [← decimalUnits_div]
  exact isNearest_iff_eq_nearest _ positive negative (by omega) x

/-! ## Texts -/

theorem read_eq_ok_iff_literal (text : String) (x : Binary32) :
    read text = .ok x ↔
      ∃ literal, Literal.read? text.toList = some literal ∧
        inRange (ofLiteral literal) = true ∧ x = ofLiteral literal := by
  rw [read]
  split
  next empty =>
    rw [String.isEmpty_iff.mp empty]
    exact iff_of_false nofun fun ⟨_, noLiteral, _⟩ => nomatch noLiteral
  · cases Literal.read? text.toList with
    | none =>
        exact iff_of_false nofun fun ⟨_, noLiteral, _⟩ => nomatch noLiteral
    | some literal =>
        simp only [Option.some.injEq, exists_eq_left']
        by_cases inside : inRange (ofLiteral literal) = true
        · rw [if_pos inside, Except.ok.injEq, eq_comm]
          exact (and_iff_right inside).symm
        · rw [if_neg inside]
          exact iff_of_false nofun fun accepted => inside accepted.1

/-- The names stand for nothing in the range. -/
theorem read_eq_ok_iff (text : String) (x : Binary32) :
    read text = .ok x ↔
      ∃ negative digits exponent,
        Literal.read? text.toList =
            some (.decimal negative digits exponent) ∧
          inRange (ofDecimal negative digits exponent) = true ∧
          x = ofDecimal negative digits exponent := by
  rw [read_eq_ok_iff_literal]
  constructor
  · rintro ⟨literal, isRead, inside, same⟩
    cases literal with
    | decimal negative digits exponent =>
        exact ⟨negative, digits, exponent, isRead, inside, same⟩
    | infinity negative =>
        rw [ofLiteral, not_inRange_infinity] at inside
        exact absurd inside Bool.false_ne_true
    | notNumber negative =>
        rw [ofLiteral, not_inRange_notNumber] at inside
        exact absurd inside Bool.false_ne_true
  · rintro ⟨negative, digits, exponent, isRead, inside, same⟩
    exact ⟨_, isRead, inside, same⟩

theorem read_eq_ok_iff_isNearest (text : String) (x : Binary32) :
    read text = .ok x ↔
      ∃ negative q, Literal.Decimal text.toList negative q ∧
        -(1 / 2 ^ 150) ≤ q ∧ q ≤ 1 + 1 / 2 ^ 24 ∧
        x.IsNearest q ∧ x.negative = negative := by
  rw [read_eq_ok_iff]
  constructor
  · rintro ⟨negative, digits, exponent, literal, inside, same⟩
    obtain ⟨lower, upper⟩ :=
      (inRange_ofDecimal_iff negative digits exponent).mp inside
    exact ⟨negative, _,
      (Literal.decimal_iff _ _ _).mpr ⟨digits, exponent, literal, rfl⟩,
      lower, upper, (isNearest_iff_eq_ofDecimal inside x).mpr same⟩
  · rintro ⟨negative, q, decimal, lower, upper, isNearest⟩
    obtain ⟨digits, exponent, literal, rfl⟩ :=
      (Literal.decimal_iff _ _ _).mp decimal
    have inside :=
      (inRange_ofDecimal_iff negative digits exponent).mpr ⟨lower, upper⟩
    exact ⟨negative, digits, exponent, literal, inside,
      (isNearest_iff_eq_ofDecimal inside x).mp isNearest⟩

/-- The text of a number has one value, and this value decides what is read. -/
theorem read_eq_ok_iff_of_decimal
    {text : String} {negative : Bool} {q : ℚ}
    (decimal : Literal.Decimal text.toList negative q) (x : Binary32) :
    read text = .ok x ↔
      -(1 / 2 ^ 150) ≤ q ∧ q ≤ 1 + 1 / 2 ^ 24 ∧
        x.IsNearest q ∧ x.negative = negative := by
  rw [read_eq_ok_iff_isNearest]
  constructor
  · intro accepted
    obtain ⟨sign, r, again, rounded⟩ := accepted
    obtain ⟨sameSign, sameValue⟩ := decimal.unique again
    rw [sameSign, sameValue]
    exact rounded
  · intro rounded
    exact ⟨negative, q, decimal, rounded⟩

theorem exists_read_iff (text : String) :
    (∃ x, read text = .ok x) ↔
      ∃ negative q, Literal.Decimal text.toList negative q ∧
        -(1 / 2 ^ 150) ≤ q ∧ q ≤ 1 + 1 / 2 ^ 24 := by
  constructor
  · rintro ⟨x, accepted⟩
    obtain ⟨negative, q, decimal, lower, upper, -⟩ :=
      (read_eq_ok_iff_isNearest text x).mp accepted
    exact ⟨negative, q, decimal, lower, upper⟩
  · rintro ⟨negative, q, decimal, lower, upper⟩
    obtain ⟨digits, exponent, literal, rfl⟩ :=
      (Literal.decimal_iff _ _ _).mp decimal
    have inside :=
      (inRange_ofDecimal_iff negative digits exponent).mpr ⟨lower, upper⟩
    exact ⟨_, (read_eq_ok_iff text _).mpr
      ⟨negative, digits, exponent, literal, inside, rfl⟩⟩

theorem exists_refusal_iff (text : String) :
    (∃ refusal, read text = .error refusal) ↔ ¬∃ x, read text = .ok x := by
  cases read text <;> simp

/-- The text of a number that is rounded into the range is read as the nearest volume
with its sign, and every other text is refused. -/
theorem read_accepts_rounded_into_range (text : String) :
    (∀ x, read text = .ok x ↔
      ∃ negative q, Literal.Decimal text.toList negative q ∧
        -(1 / 2 ^ 150) ≤ q ∧ q ≤ 1 + 1 / 2 ^ 24 ∧
        x.IsNearest q ∧ x.negative = negative) ∧
      (∀ negative q, Literal.Decimal text.toList negative q →
        ∀ x, read text = .ok x ↔
          -(1 / 2 ^ 150) ≤ q ∧ q ≤ 1 + 1 / 2 ^ 24 ∧
            x.IsNearest q ∧ x.negative = negative) ∧
      ((∃ x, read text = .ok x) ↔
        ∃ negative q, Literal.Decimal text.toList negative q ∧
          -(1 / 2 ^ 150) ≤ q ∧ q ≤ 1 + 1 / 2 ^ 24) ∧
      ((∃ refusal, read text = .error refusal) ↔
        ∀ negative q, Literal.Decimal text.toList negative q →
          q < -(1 / 2 ^ 150) ∨ 1 + 1 / 2 ^ 24 < q) ∧
      ∀ x, read text = .ok x →
        x.isNaN = false ∧ 0 ≤ x.value ∧ x.value ≤ 1 := by
  refine ⟨read_eq_ok_iff_isNearest text, ?_, exists_read_iff text, ?_, ?_⟩
  · intro negative q decimal
    exact read_eq_ok_iff_of_decimal decimal
  · rw [exists_refusal_iff, exists_read_iff]
    push Not
    refine forall₃_congr fun negative q decimal => ?_
    rw [or_iff_not_imp_left, not_lt]
  · intro x accepted
    obtain ⟨_, _, _, _, inside, rfl⟩ := (read_eq_ok_iff text x).mp accepted
    exact (inRange_iff _).mp inside

example : read "0.25" = .ok standard := by decide

-- Half way from one to the next number is one, and anything above is not.
example : read "1.000000059604644775390625" = .ok one := by decide

example :
    read "1.0000000596046447753906251" =
      .error (.outOfRange ⟨0x3F800001⟩) := by
  decide

end ChipEight.Volume

import ChipEight.Proofs.Binary32.Values
import ChipEight.Proofs.Text.Integers

/-!
# The texts of decimal numbers

A decimal number is written as a sign or none, digits with a point somewhere or
without one, and a power of ten or none.  The reader of literals takes exactly these
texts for decimal numbers, and what it reads has the exact value of the text: the
digits around the point are one numeral, and its exponent is that of the text less
the places after the point.
-/

namespace ChipEight.Binary32.Literal

open Numeral

/-! ## The grammar -/

/-- Digits, with a point before, among or after them or without one, and the number
that they stand for. -/
inductive Mantissa : List Char → ℚ → Prop
  | whole {digits : List Char} {n : Nat} (spells : Spells 10 digits n) :
      Mantissa digits n
  | pointed {whole fraction : List Char}
      (nonempty : whole ++ fraction ≠ [])
      (digits : ∀ c ∈ whole ++ fraction, isDigit 10 c = true) :
      Mantissa (whole ++ '.' :: fraction)
        (valueAfter 10 0 whole +
          valueAfter 10 0 fraction / 10 ^ fraction.length)

/-- The text of a decimal number, whether it has a minus, and its exact value. -/
inductive Decimal : List Char → Bool → ℚ → Prop
  | intro {sign digits power : List Char} {negative : Bool} {m : ℚ} {e : Int}
      (hasSign : Sign sign negative) (mantissa : Mantissa digits m)
      (hasPower : Power power e) :
      Decimal (sign ++ (digits ++ power)) negative
        (signed negative (m * 10 ^ e))

/-! ## Reading -/

theorem endsNumeral_of_power
    {power : List Char} {e : Int} (hasPower : Power power e) :
    EndsNumeral 10 power := by
  intro c first
  cases hasPower with
  | absent =>
      cases first
  | given isLetter spells =>
      rw [← Option.some.inj first]
      rcases isLetter with rfl | rfl
      · decide
      · decide

theorem splitFraction_of_power
    {power : List Char} {e : Int} (hasPower : Power power e) :
    splitFraction power = ([], power) := by
  cases hasPower with
  | absent =>
      rfl
  | given isLetter spells =>
      rcases isLetter with rfl | rfl
      · rfl
      · rfl

theorem readNumber?_of_unpointed
    {digits power : List Char} {n : Nat} {e : Int} (negative : Bool)
    (spells : Spells 10 digits n) (hasPower : Power power e) :
    readNumber? negative (digits ++ power) =
      some (.decimal negative n e) := by
  obtain ⟨taken, left⟩ :=
    span_digits spells.digits (endsNumeral_of_power hasPower)
  rw [isDigit_ten] at taken left
  have number := (readDecimal?_eq_some_iff digits n).mpr spells
  have exponent := (readExponent?_eq_some_iff power e).mpr hasPower
  simp only [readNumber?, taken, left, splitFraction_of_power hasPower,
    List.append_nil, number, exponent, List.length_nil, Nat.cast_zero,
    Int.sub_zero]

theorem readNumber?_of_pointed
    {whole fraction power : List Char} {n : Nat} {e : Int} (negative : Bool)
    (spells : Spells 10 (whole ++ fraction) n) (hasPower : Power power e) :
    readNumber? negative (whole ++ '.' :: (fraction ++ power)) =
      some (.decimal negative n (e - fraction.length)) := by
  have inWhole : ∀ c ∈ whole, isDigit 10 c = true :=
    fun c among => spells.digits c (List.mem_append_left _ among)
  have inFraction : ∀ c ∈ fraction, isDigit 10 c = true :=
    fun c among => spells.digits c (List.mem_append_right _ among)
  have point : EndsNumeral 10 ('.' :: (fraction ++ power)) := by
    intro c first
    rw [← Option.some.inj first]
    decide
  obtain ⟨taken, left⟩ := span_digits inWhole point
  obtain ⟨takenFraction, leftFraction⟩ :=
    span_digits inFraction (endsNumeral_of_power hasPower)
  rw [isDigit_ten] at taken left takenFraction leftFraction
  have number := (readDecimal?_eq_some_iff (whole ++ fraction) n).mpr spells
  have exponent := (readExponent?_eq_some_iff power e).mpr hasPower
  simp only [readNumber?, taken, left, splitFraction, takenFraction,
    leftFraction, number, exponent]

theorem splitFraction_cases (cs : List Char) :
    (∃ after, cs = '.' :: after ∧
      splitFraction cs =
        (after.takeWhile Char.isDigit, after.dropWhile Char.isDigit)) ∨
      splitFraction cs = ([], cs) := by
  fun_cases splitFraction cs with
  | case1 after =>
      exact .inl ⟨after, rfl, rfl⟩
  | case2 =>
      exact .inr rfl

/-- Digits around a point stand for the number that they spell without it, moved by
the places after it. -/
theorem pointed_value (whole fraction : List Char) :
    (valueAfter 10 0 whole : ℚ) +
        valueAfter 10 0 fraction / 10 ^ fraction.length =
      valueAfter 10 0 (whole ++ fraction) / 10 ^ fraction.length := by
  have scale : (10 : ℚ) ^ fraction.length ≠ 0 := by
    positivity
  rw [valueAfter_append, valueAfter_eq_add 10 (valueAfter 10 0 whole),
    Nat.pow_eq]
  push_cast
  rw [add_div, mul_div_cancel_right₀ _ scale]

theorem shifted_power (n : Nat) (places : Nat) (e : Int) :
    (n : ℚ) / 10 ^ places * 10 ^ e = n * 10 ^ (e - places) := by
  rw [zpow_sub₀ (by norm_num), zpow_natCast]
  ring

theorem readNumber?_sound
    {negative sign : Bool} {cs : List Char} {n : Nat} {e : Int}
    (read : readNumber? negative cs = some (.decimal sign n e)) :
    sign = negative ∧ ∃ digits power m p, cs = digits ++ power ∧
      Mantissa digits m ∧ Power power p ∧ m * 10 ^ p = (n : ℚ) * 10 ^ e := by
  rw [readNumber?] at read
  simp only at read
  split at read
  next number exponent hasNumber hasExponent =>
    injection Option.some.inj read with sameSign sameNumber sameExponent
    subst sameSign sameNumber sameExponent
    rw [readDecimal?_eq_some_iff] at hasNumber
    rw [readExponent?_eq_some_iff] at hasExponent
    refine ⟨rfl, ?_⟩
    rcases splitFraction_cases (cs.dropWhile Char.isDigit) with
      ⟨after, pointed, parts⟩ | parts
    · rw [parts] at hasNumber hasExponent ⊢
      refine ⟨_, _, _, _, ?_,
        .pointed hasNumber.nonempty hasNumber.digits, hasExponent, ?_⟩
      · rw [List.append_assoc, List.cons_append,
          List.takeWhile_append_dropWhile, ← pointed,
          List.takeWhile_append_dropWhile]
      · rw [pointed_value, shifted_power, hasNumber.value]
    · rw [parts] at hasNumber hasExponent ⊢
      rw [List.append_nil] at hasNumber
      refine ⟨_, _, _, _, List.takeWhile_append_dropWhile.symm,
        .whole hasNumber, hasExponent, ?_⟩
      rw [List.length_nil, Nat.cast_zero, Int.sub_zero]
  next =>
    cases read

theorem readNumber?_complete
    {digits power : List Char} {m : ℚ} {p : Int} (negative : Bool)
    (mantissa : Mantissa digits m) (hasPower : Power power p) :
    ∃ n e,
      readNumber? negative (digits ++ power) =
          some (.decimal negative n e) ∧
        (n : ℚ) * 10 ^ e = m * 10 ^ p := by
  cases mantissa with
  | whole spells =>
      exact ⟨_, _, readNumber?_of_unpointed negative spells hasPower, rfl⟩
  | @pointed whole fraction nonempty isDigits =>
      have read := readNumber?_of_pointed negative
        ⟨nonempty, isDigits, rfl⟩ hasPower
      rw [List.append_assoc, List.cons_append]
      refine ⟨_, _, read, ?_⟩
      rw [pointed_value, shifted_power]

/-! ## Signs -/

theorem readName?_ne_decimal
    {negative sign : Bool} {cs : List Char} {n : Nat} {e : Int} :
    readName? negative cs ≠ some (.decimal sign n e) := by
  rw [readName?]
  split
  · exact nofun
  · split
    · exact nofun
    · exact nofun

theorem readUnsigned?_eq_decimal_iff
    {negative sign : Bool} {cs : List Char} {n : Nat} {e : Int} :
    readUnsigned? negative cs = some (.decimal sign n e) ↔
      readNumber? negative cs = some (.decimal sign n e) := by
  rw [readUnsigned?, Option.or_eq_some_iff, or_iff_left]
  rintro ⟨_, named⟩
  exact readName?_ne_decimal named

theorem decimal_of_read
    {sign cs : List Char} {negative read : Bool} {n : Nat} {e : Int}
    (hasSign : Sign sign negative)
    (isRead : readUnsigned? negative cs = some (.decimal read n e)) :
    Decimal (sign ++ cs) read (signed read (n * 10 ^ e)) := by
  obtain ⟨rfl, digits, power, m, p, rfl, mantissa, hasPower, value⟩ :=
    readNumber?_sound (readUnsigned?_eq_decimal_iff.mp isRead)
  rw [← value]
  exact .intro hasSign mantissa hasPower

theorem exists_first_of_mantissa
    {digits : List Char} {m : ℚ} (mantissa : Mantissa digits m) :
    ∃ d ds, digits = d :: ds ∧ (d = '.' ∨ isDigit 10 d = true) := by
  cases mantissa with
  | whole spells =>
      obtain ⟨d, ds, rfl⟩ := List.exists_cons_of_ne_nil spells.nonempty
      exact ⟨d, ds, rfl, .inr (spells.digits d List.mem_cons_self)⟩
  | @pointed whole fraction nonempty isDigits =>
      cases whole with
      | nil =>
          exact ⟨'.', fraction, rfl, .inl rfl⟩
      | cons d ds =>
          exact ⟨d, ds ++ '.' :: fraction, rfl,
            .inr (isDigits d List.mem_cons_self)⟩

theorem Decimal.exists_first
    {cs : List Char} {negative : Bool} {q : ℚ}
    (decimal : Decimal cs negative q) :
    ∃ d ds, cs = d :: ds ∧
      (d ∈ ['+', '-', '.'] ∨ isDigit 10 d = true) := by
  obtain ⟨hasSign, mantissa, -⟩ := decimal
  cases hasSign with
  | plus =>
      exact ⟨'+', _, rfl, .inl (by decide)⟩
  | minus =>
      exact ⟨'-', _, rfl, .inl (by decide)⟩
  | absent =>
      obtain ⟨d, ds, rfl, first⟩ := exists_first_of_mantissa mantissa
      refine ⟨d, _, rfl, first.imp_left ?_⟩
      rintro rfl
      decide

theorem read?_of_unsigned
    {d : Char} (notMinus : d ≠ '-') (notPlus : d ≠ '+') (ds : List Char) :
    read? (d :: ds) = readUnsigned? false (d :: ds) := by
  rw [read?]
  · intro rest same
    exact notMinus (List.cons.inj same).1
  · intro rest same
    exact notPlus (List.cons.inj same).1

/-- What is read as a decimal number is the text of one, with its exact value. -/
theorem decimal_iff (cs : List Char) (negative : Bool) (q : ℚ) :
    Decimal cs negative q ↔
      ∃ n e, read? cs = some (.decimal negative n e) ∧
        q = signed negative (n * 10 ^ e) := by
  constructor
  · rintro ⟨hasSign, mantissa, hasPower⟩
    obtain ⟨n, e, isRead, value⟩ :=
      readNumber?_complete negative mantissa hasPower
    rw [← readUnsigned?_eq_decimal_iff] at isRead
    refine ⟨n, e, ?_, by rw [value]⟩
    cases hasSign with
    | absent =>
        obtain ⟨d, ds, rfl, first⟩ := exists_first_of_mantissa mantissa
        have notSign : d ≠ '-' ∧ d ≠ '+' := by
          rcases first with rfl | digit
          · decide
          · exact ne_sign_of_isDigit digit
        exact (read?_of_unsigned notSign.1 notSign.2 _).trans isRead
    | plus =>
        exact isRead
    | minus =>
        exact isRead
  · rintro ⟨n, e, isRead, rfl⟩
    by_cases minus : ∃ rest, cs = '-' :: rest
    · obtain ⟨rest, rfl⟩ := minus
      exact decimal_of_read .minus isRead
    by_cases plus : ∃ rest, cs = '+' :: rest
    · obtain ⟨rest, rfl⟩ := plus
      exact decimal_of_read .plus isRead
    · rw [read?] at isRead
      · exact decimal_of_read .absent isRead
      · exact fun rest same => minus ⟨rest, same⟩
      · exact fun rest same => plus ⟨rest, same⟩

/-- A text has one sign and one exact value. -/
theorem Decimal.unique
    {cs : List Char} {negative other : Bool} {q r : ℚ}
    (decimal : Decimal cs negative q) (again : Decimal cs other r) :
    negative = other ∧ q = r := by
  obtain ⟨n, e, isRead, rfl⟩ := (decimal_iff _ _ _).mp decimal
  obtain ⟨m, p, readAgain, rfl⟩ := (decimal_iff _ _ _).mp again
  rw [isRead] at readAgain
  cases readAgain
  exact ⟨rfl, rfl⟩

end ChipEight.Binary32.Literal

import ChipEight.Binary32.Literal
import ChipEight.CommandLine
import ChipEight.Proofs.Text.Numerals

/-!
# Integers with signs

A decimal numeral may follow a sign.  The readers of integers and of exponents
accept exactly such texts, and give the number that the digits stand for or its
opposite.
-/

namespace ChipEight.Numeral

/-- The text of a sign, which may be left out, and whether it is a minus. -/
inductive Sign : List Char → Bool → Prop
  | absent : Sign [] false
  | plus : Sign ['+'] false
  | minus : Sign ['-'] true

/-- The text of an integer: a sign or none and a decimal numeral. -/
inductive SpellsInteger : List Char → Int → Prop
  | intro {sign digits : List Char} {negative : Bool} {n : Nat}
      (hasSign : Sign sign negative) (spells : Spells 10 digits n) :
      SpellsInteger (sign ++ digits) (if negative then -n else n)

theorem ne_sign_of_isDigit {d : Char} (digit : isDigit 10 d = true) :
    d ≠ '-' ∧ d ≠ '+' := by
  constructor
  · rintro rfl
    exact absurd digit (by decide)
  · rintro rfl
    exact absurd digit (by decide)

/-- A numeral does not begin with a sign. -/
theorem exists_digit_of_spells
    {digits : List Char} {n : Nat} (spells : Spells 10 digits n) :
    ∃ d ds, digits = d :: ds ∧ d ≠ '-' ∧ d ≠ '+' := by
  obtain ⟨d, ds, rfl⟩ := List.exists_cons_of_ne_nil spells.nonempty
  exact ⟨d, ds, rfl,
    ne_sign_of_isDigit (spells.digits d List.mem_cons_self)⟩

open CommandLine

theorem readInteger?_minus (digits : List Char) :
    readInteger? ('-' :: digits) =
      (readDecimal? digits).map fun n : Nat => -(n : Int) := by
  rw [readInteger?]
  cases readDecimal? digits with
  | none =>
      rfl
  | some n =>
      rfl

theorem readInteger?_of_unsigned
    {d : Char} (notMinus : d ≠ '-') (notPlus : d ≠ '+') (ds : List Char) :
    readInteger? (d :: ds) = (readDecimal? (d :: ds)).map Int.ofNat := by
  rw [readInteger?]
  · intro digits same
    exact notMinus (List.cons.inj same).1
  · intro digits same
    exact notPlus (List.cons.inj same).1

theorem spellsInteger_of_read
    {sign digits : List Char} {negative : Bool} {i : Int}
    (hasSign : Sign sign negative)
    (read : (readDecimal? digits).map
      (fun n : Nat => if negative then -(n : Int) else n) = some i) :
    SpellsInteger (sign ++ digits) i := by
  obtain ⟨n, isNumeral, rfl⟩ := Option.map_eq_some_iff.mp read
  exact .intro hasSign ((readDecimal?_eq_some_iff digits n).mp isNumeral)

theorem readInteger?_eq_some_iff (cs : List Char) (i : Int) :
    readInteger? cs = some i ↔ SpellsInteger cs i := by
  constructor
  · intro read
    by_cases minus : ∃ digits, cs = '-' :: digits
    · obtain ⟨digits, rfl⟩ := minus
      rw [readInteger?_minus] at read
      exact spellsInteger_of_read .minus read
    by_cases plus : ∃ digits, cs = '+' :: digits
    · obtain ⟨digits, rfl⟩ := plus
      exact spellsInteger_of_read .plus read
    · rw [readInteger?] at read
      · exact spellsInteger_of_read .absent read
      · exact fun digits same => minus ⟨digits, same⟩
      · exact fun digits same => plus ⟨digits, same⟩
  · rintro ⟨hasSign, spells⟩
    have reads := (readDecimal?_eq_some_iff _ _).mpr spells
    cases hasSign with
    | absent =>
        obtain ⟨d, ds, rfl, notMinus, notPlus⟩ :=
          exists_digit_of_spells spells
        rw [List.nil_append, readInteger?_of_unsigned notMinus notPlus, reads]
        rfl
    | plus =>
        exact Option.map_eq_some_iff.mpr ⟨_, reads, rfl⟩
    | minus =>
        exact (readInteger?_minus _).trans
          (Option.map_eq_some_iff.mpr ⟨_, reads, rfl⟩)

end ChipEight.Numeral

namespace ChipEight.Binary32.Literal

open Numeral

/-- The exponent of a power of ten is read as integers are. -/
theorem readExponent?_cons (c : Char) (cs : List Char) :
    readExponent? (c :: cs) =
      if c = 'e' ∨ c = 'E' then CommandLine.readInteger? cs else none :=
  rfl

/-- The text of a power of ten, which may be left out, and its exponent. -/
inductive Power : List Char → Int → Prop
  | absent : Power [] 0
  | given {letter : Char} {digits : List Char} {e : Int}
      (isLetter : letter = 'e' ∨ letter = 'E')
      (spells : SpellsInteger digits e) : Power (letter :: digits) e

theorem readExponent?_eq_some_iff (cs : List Char) (e : Int) :
    readExponent? cs = some e ↔ Power cs e := by
  constructor
  · intro read
    cases cs with
    | nil =>
        have isZero : 0 = e := Option.some.inj read
        rw [← isZero]
        exact .absent
    | cons c cs =>
        rw [readExponent?_cons] at read
        split at read
        next isLetter =>
          exact .given isLetter ((readInteger?_eq_some_iff cs e).mp read)
        next =>
          cases read
  · rintro (_ | ⟨isLetter, spells⟩)
    · rfl
    · rw [readExponent?_cons, if_pos isLetter]
      exact (readInteger?_eq_some_iff _ e).mpr spells

end ChipEight.Binary32.Literal

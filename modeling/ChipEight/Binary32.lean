/-!
# Binary floating point of thirty-two bits

The interchange format with a sign, eight bits of exponent and twenty-three bits
of fraction.  Every finite number of it is a whole multiple of its smallest
positive number, so finite numbers are read as integers counting that unit and
all arithmetic is exact integer arithmetic followed by one rounding.
-/

namespace ChipEight

/-- A number in the interchange format, told by its bits. -/
structure Binary32 where
  bits : BitVec 32
deriving DecidableEq, Repr

namespace Binary32

/-! ## Fields -/

/-- The sign bit. -/
def negative (x : Binary32) : Bool := x.bits.msb

/-- The exponent field. -/
def exponent (x : Binary32) : Nat := (x.bits.extractLsb' 23 8).toNat

/-- The fraction field. -/
def fraction (x : Binary32) : Nat := (x.bits.extractLsb' 0 23).toNat

/-- Put the three fields together. -/
def ofFields (negative : Bool) (exponent fraction : Nat) : Binary32 :=
  ⟨BitVec.ofBool negative ++ BitVec.ofNat 8 exponent ++
    BitVec.ofNat 23 fraction⟩

/-- Whether the bits stand for no number. -/
def isNaN (x : Binary32) : Bool := x.exponent == 255 && x.fraction != 0

/-- Whether the bits stand for an infinity. -/
def isInfinite (x : Binary32) : Bool := x.exponent == 255 && x.fraction == 0

/-! ## Constants -/

/-- Zero with a sign. -/
def zero (negative : Bool) : Binary32 := ofFields negative 0 0

/-- An infinity. -/
def infinity (negative : Bool) : Binary32 := ofFields negative 255 0

/-- One. -/
def one : Binary32 := ofFields false 127 0

/-- One half. -/
def half : Binary32 := ofFields false 126 0

/-- What an operation without a result gives. -/
def invalid : Binary32 := ofFields true 255 0x400000

/-! ## Values -/

/-- The leading bit of a significand, just above the largest fraction. -/
def leadingBit : Nat := 0x800000

/-- How many of the smallest positive number make one. -/
def unitsInOne : Nat := Nat.pow 2 149

/-- The distance from zero, counted in the smallest positive number.  Infinity
counts as the power of two that is just out of range. -/
def magnitude (x : Binary32) : Nat :=
  if x.exponent = 0 then x.fraction
  else (leadingBit + x.fraction) * Nat.pow 2 (x.exponent - 1)

/-- The value, counted in the smallest positive number. -/
def units (x : Binary32) : Int :=
  if x.negative then -(x.magnitude : Int) else x.magnitude

/-- The number with a magnitude of at most twenty-four significant bits, or
infinity if that is out of range. -/
def ofMagnitude (negative : Bool) (magnitude : Nat) : Binary32 :=
  if magnitude < leadingBit then ofFields negative 0 magnitude
  else
    let shift := magnitude.log2 - 23
    if shift < 254 then
      ofFields negative (shift + 1)
        (magnitude / Nat.pow 2 shift - leadingBit)
    else infinity negative

/-! ## Comparison -/

/-- Less than; false when either side is no number. -/
def lt (x y : Binary32) : Bool :=
  !x.isNaN && !y.isNaN && decide (x.units < y.units)

/-- At most; false when either side is no number. -/
def le (x y : Binary32) : Bool :=
  !x.isNaN && !y.isNaN && decide (x.units ≤ y.units)

/-! ## Operations on the bits alone -/

/-- The number with the other sign. -/
def negate (x : Binary32) : Binary32 := ⟨x.bits ^^^ (1 <<< 31)⟩

/-- The bits of no number, marked as having been seen. -/
def quiet (x : Binary32) : Binary32 := ⟨x.bits ||| (1 <<< 22)⟩

end Binary32

end ChipEight

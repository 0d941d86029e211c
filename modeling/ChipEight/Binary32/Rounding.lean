import ChipEight.Binary32

/-!
# Rounding

The number of the format nearest to an exact quotient, with ties going to the
even neighbour.  Every operation of the format ends here.
-/

namespace ChipEight.Binary32

/-- The whole number nearest to a quotient, the even one of two. -/
def roundQuotient (num den : Nat) : Nat :=
  let floor := num / den
  let rest := num % den
  if 2 * rest < den then floor
  else if den < 2 * rest then floor + 1
  else floor + floor % 2

/-- The distance between neighbours of the format at a magnitude. -/
def spacing (magnitude : Nat) : Nat := Nat.pow 2 (magnitude.log2 - 23)

/-- The magnitude of the format nearest to a quotient of units. -/
def roundMagnitude (num den : Nat) : Nat :=
  let gap := spacing (num / den)
  roundQuotient num (den * gap) * gap

/-- The number nearest to a quotient of units, with a sign. -/
def nearest (negative : Bool) (num den : Nat) : Binary32 :=
  ofMagnitude negative (roundMagnitude num den)

/-- The number nearest to an integer. -/
def ofInt (i : Int) : Binary32 :=
  nearest (decide (i < 0)) (i.natAbs * unitsInOne) 1

end ChipEight.Binary32

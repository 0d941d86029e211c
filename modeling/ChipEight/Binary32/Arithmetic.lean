import ChipEight.Binary32.Rounding

/-!
# Arithmetic

Sum, quotient and remainder by one.  An operand that is no number comes back
marked as seen, the first such operand before the second.
-/

namespace ChipEight.Binary32

/-- The sum of two finite numbers.  An exact zero is negative only when both
numbers are. -/
def addFinite (x y : Binary32) : Binary32 :=
  let sum := x.units + y.units
  if sum = 0 then zero (x.negative && y.negative)
  else nearest (decide (sum < 0)) sum.natAbs 1

/-- The sum. -/
def add (x y : Binary32) : Binary32 :=
  if x.isNaN then x.quiet
  else if y.isNaN then y.quiet
  else if x.isInfinite then
    if y.isInfinite && x.negative != y.negative then invalid else x
  else if y.isInfinite then y
  else x.addFinite y

/-- The quotient. -/
def div (x y : Binary32) : Binary32 :=
  let negative := x.negative != y.negative
  if x.isNaN then x.quiet
  else if y.isNaN then y.quiet
  else if x.isInfinite then
    if y.isInfinite then invalid else infinity negative
  else if y.isInfinite then zero negative
  else if y.magnitude = 0 then
    if x.magnitude = 0 then invalid else infinity negative
  else nearest negative (x.magnitude * unitsInOne) y.magnitude

/-- What is left after taking whole ones away, with the sign of the number. -/
def modOne (x : Binary32) : Binary32 :=
  if x.isNaN then x.quiet
  else if x.isInfinite then invalid
  else ofMagnitude x.negative (x.magnitude % unitsInOne)

end ChipEight.Binary32

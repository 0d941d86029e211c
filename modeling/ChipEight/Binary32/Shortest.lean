import ChipEight.Binary32.Rounding
import ChipEight.Text.Numeral

/-!
# Shortest decimal text

The text of a number has as few decimal places as will do for it to read back as
the same number, and among those is the nearest to it.  It never has an exponent.
-/

namespace ChipEight.Binary32

/-! ## The numbers that read back -/

/-- Whether a quotient of units rounds to a number of this magnitude.  The ends
of the interval are half way to the neighbours and belong to it when the number
is even.  Below a power of two the neighbour is half as far away. -/
def readsBack (magnitude num den : Nat) : Bool :=
  let gap := spacing magnitude
  let gapBelow := spacing (magnitude - 1)
  let low := (2 * magnitude - gapBelow) * den
  let high := (2 * magnitude + gap) * den
  if magnitude / gap % 2 = 0 then
    decide (low ≤ 2 * num) && decide (2 * num ≤ high)
  else
    decide (low < 2 * num) && decide (2 * num < high)

/-! ## The coarsest grid -/

/-- The count of steps of ten to `-places` that reads back as a magnitude, if one
of the two steps around it does.  Of two that do the nearer is taken, of two
equally near the greater. -/
def stepsAt? (magnitude : Nat) (places : Int) : Option Nat :=
  let fine := Nat.pow 10 places.toNat
  let coarse := Nat.pow 10 (-places).toNat
  let num := magnitude * fine
  let den := unitsInOne * coarse
  let below := num / den
  let hits (steps : Nat) : Bool := readsBack magnitude (steps * den) fine
  match hits below, hits (below + 1) with
  | true, true => if 2 * (num % den) < den then some below else some (below + 1)
  | true, false => some below
  | false, true => some (below + 1)
  | false, false => none

/-- The fewest decimal places at which a magnitude has a text, and the steps that
it has there.  No finite magnitude needs more than sixty places or begins above
the fortieth place before the point. -/
def shortest (magnitude : Nat) : Nat × Int :=
  let grids := (List.range 100).map fun (k : Nat) => (k : Int) - 40
  let found := grids.findSome? fun places =>
    (stepsAt? magnitude places).map fun steps => (steps, places)
  found.getD (magnitude, 0)

/-! ## The text -/

/-- Steps of ten to `-places` in positional notation. -/
def positional (steps : Nat) (places : Int) : List Char :=
  if places ≤ 0 then Numeral.decimal (steps * Nat.pow 10 (-places).toNat)
  else
    let one := Nat.pow 10 places.toNat
    Numeral.decimal (steps / one) ++
      '.' :: (Numeral.decimal (steps % one)).leftpad places.toNat '0'

/-- The text of a magnitude. -/
def magnitudeChars (magnitude : Nat) : List Char :=
  if magnitude = 0 then ['0']
  else
    let (steps, places) := shortest magnitude
    positional steps places

/-- The text of a number, as characters. -/
def chars (x : Binary32) : List Char :=
  if x.isNaN then "NaN".toList
  else
    let sign := if x.negative then ['-'] else []
    if x.isInfinite then sign ++ "inf".toList
    else sign ++ magnitudeChars x.magnitude

end ChipEight.Binary32

import ChipEight.Binary32.Rounding
import ChipEight.Text.Numeral

/-!
# Reading decimal numbers

A literal is a decimal number, the name of an infinity or the name of no number,
with or without a sign.  A decimal number has a digit before or after its point
and may end in an exponent.  Reading keeps the exact value; `ofLiteral` rounds
it once.
-/

namespace ChipEight.Binary32

/-- A literal: a decimal number is `digits` times ten to `exponent`. -/
inductive Literal
  | decimal (negative : Bool) (digits : Nat) (exponent : Int)
  | infinity (negative : Bool)
  | notNumber (negative : Bool)
deriving DecidableEq, Repr

namespace Literal

/-! ## The grammar -/

/-- The exponent part: nothing, or its letter, a sign or none, and digits. -/
def readExponent? : List Char → Option Int
  | [] => some 0
  | c :: cs =>
    if c = 'e' ∨ c = 'E' then
      match cs with
      | '-' :: digits => (Numeral.readDecimal? digits).map fun n => -(n : Int)
      | '+' :: digits => (Numeral.readDecimal? digits).map Int.ofNat
      | digits => (Numeral.readDecimal? digits).map Int.ofNat
    else none

/-- The digits after a point, if a point follows, and the rest. -/
def splitFraction : List Char → List Char × List Char
  | '.' :: cs => (cs.takeWhile Char.isDigit, cs.dropWhile Char.isDigit)
  | cs => ([], cs)

/-- A decimal number without its sign. -/
def readNumber? (negative : Bool) (cs : List Char) : Option Literal :=
  let whole := cs.takeWhile Char.isDigit
  let (fraction, rest) := splitFraction (cs.dropWhile Char.isDigit)
  match Numeral.readDecimal? (whole ++ fraction), readExponent? rest with
  | some digits, some exponent =>
    some (.decimal negative digits (exponent - fraction.length))
  | _, _ => none

/-- A name in any case: of infinity, in short or in full, or of no number. -/
def readName? (negative : Bool) (cs : List Char) : Option Literal :=
  let name := String.ofList (cs.map Char.toLower)
  if name = "inf" ∨ name = "infinity" then some (.infinity negative)
  else if name = "nan" then some (.notNumber negative)
  else none

/-- A literal without its sign. -/
def readUnsigned? (negative : Bool) (cs : List Char) : Option Literal :=
  (readNumber? negative cs).or (readName? negative cs)

/-- A literal. -/
def read? : List Char → Option Literal
  | '-' :: cs => readUnsigned? true cs
  | '+' :: cs => readUnsigned? false cs
  | cs => readUnsigned? false cs

end Literal

/-! ## The value -/

/-- The number nearest to `digits` times ten to `exponent`.  Where the exponent
alone makes the value too great, or makes it less than ten to minus fifty-one,
the answer is known without working out the power of ten. -/
def ofDecimal (negative : Bool) (digits : Nat) (exponent : Int) : Binary32 :=
  if digits = 0 ∨ (digits.log2 : Int) + 1 < 3 * (-exponent - 51) then
    zero negative
  else if 40 < exponent then infinity negative
  else
    nearest negative (digits * Nat.pow 10 exponent.toNat * unitsInOne)
      (Nat.pow 10 (-exponent).toNat)

/-- The number that a literal stands for. -/
def ofLiteral : Literal → Binary32
  | .decimal negative digits exponent => ofDecimal negative digits exponent
  | .infinity negative => infinity negative
  | .notNumber negative => ofFields negative 255 0x400000

end ChipEight.Binary32

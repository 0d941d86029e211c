import ChipEight.Binary32.Literal
import ChipEight.Binary32.Shortest

/-!
# Volume

A volume is a number from zero to one.  Its text is any literal whose rounded
value lies in that range.
-/

namespace ChipEight.Volume

/-- Why a text is no volume. -/
inductive Refusal
  | empty
  | malformed
  | outOfRange (value : Binary32)
deriving DecidableEq, Repr

/-- The report of a refusal. -/
def Refusal.text : Refusal → String
  | empty => "cannot parse float from empty string"
  | malformed => "invalid float literal"
  | outOfRange value =>
    String.ofList
      ("volume must be between 0 and 1, got ".toList ++ value.chars)

/-- Whether a number lies between zero and one.  Negative zero does. -/
def inRange (x : Binary32) : Bool :=
  (Binary32.zero false).le x && x.le Binary32.one

/-- The volume that a text stands for. -/
def read (text : String) : Except Refusal Binary32 :=
  if text.isEmpty then .error .empty
  else
    match Binary32.Literal.read? text.toList with
    | none => .error .malformed
    | some literal =>
      let value := Binary32.ofLiteral literal
      if inRange value then .ok value else .error (.outOfRange value)

/-- The volume unless another is chosen: one quarter. -/
def standard : Binary32 := .ofFields false 125 0

end ChipEight.Volume

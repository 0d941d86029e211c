import ChipEight.Text.Numeral
import ChipEight.Word

/-!
# Faults

What the machine refuses to do, and the text that reports it.  An address in a
report is that of the refused instruction.
-/

namespace ChipEight

/-- The two ways in which the call stack refuses. -/
inductive StackFault
  | overflow
  | underflow
deriving DecidableEq, Repr

inductive Fault
  | programTooLarge (size limit : Nat)
  | stackOverflow (pc : Word)
  | stackUnderflow (pc : Word)
  | unknownWord (word pc : Word)
deriving DecidableEq, Repr

/-- The fault of an instruction at an address that the stack refused. -/
def StackFault.at (fault : StackFault) (pc : Address) : Fault :=
  match fault with
  | overflow => .stackOverflow pc.toWord
  | underflow => .stackUnderflow pc.toWord

namespace Fault

/-- An address in a report: a mark and at least three digits. -/
def addressChars (pc : Word) : List Char :=
  "0x".toList ++ Numeral.hex 3 pc.toNat

/-- The report of a fault, as characters. -/
def chars : Fault → List Char
  | programTooLarge size limit =>
    "program is ".toList ++ Numeral.decimal size ++
      " bytes but only ".toList ++ Numeral.decimal limit ++
      " bytes of program memory exist".toList
  | stackOverflow pc =>
    "call stack overflow at ".toList ++ addressChars pc
  | stackUnderflow pc =>
    "return with an empty call stack at ".toList ++ addressChars pc
  | unknownWord word pc =>
    "unrecognized opcode ".toList ++ Numeral.hex 4 word.toNat ++
      " at ".toList ++ addressChars pc

def text (fault : Fault) : String := String.ofList fault.chars

end Fault

end ChipEight

import ChipEight.Word

/-!
# Instructions

What an instruction word asks for.  `Instruction.decode` reads a word; words
that ask for nothing known have no instruction, and what happens then is for the
machine to decide.
-/

namespace ChipEight

/-! ## Arithmetic on two registers -/

/-- The ways of combining the contents of two registers. -/
inductive Arithmetic
  | copy
  | or
  | and
  | xor
  | add
  | subtract
  | shiftRight
  | subtractFrom
  | shiftLeft
deriving DecidableEq, Repr

namespace Arithmetic

/-- A flag as the content of a register. -/
def flagByte (set : Bool) : Byte := if set then 1 else 0

/-- The result for the contents `a` and `b` of the first and second register. -/
def result (operation : Arithmetic) (a b : Byte) : Byte :=
  match operation with
  | copy => b
  | or => a ||| b
  | and => a &&& b
  | xor => a ^^^ b
  | add => a + b
  | subtract => a - b
  | shiftRight => a >>> 1
  | subtractFrom => b - a
  | shiftLeft => a <<< 1

/-- The flag, for the operations that leave one: the carry of an addition, no
borrow of a subtraction, the bit that a shift loses. -/
def flag? (operation : Arithmetic) (a b : Byte) : Option Bool :=
  match operation with
  | copy => none
  | or => none
  | and => none
  | xor => none
  | add => some (decide (256 ≤ a.toNat + b.toNat))
  | subtract => some (decide (b ≤ a))
  | shiftRight => some (a.getLsbD 0)
  | subtractFrom => some (decide (a ≤ b))
  | shiftLeft => some a.msb

end Arithmetic

/-! ## The instruction set -/

/-- What a known word asks for.  `x` and `y` are registers. -/
inductive Instruction
  | clearScreen
  | ret
  | jump (target : Address)
  | call (target : Address)
  | skipEqual (x : Nibble) (value : Byte)
  | skipUnequal (x : Nibble) (value : Byte)
  | skipSame (x y : Nibble)
  | assign (x : Nibble) (value : Byte)
  | increase (x : Nibble) (value : Byte)
  | combine (operation : Arithmetic) (x y : Nibble)
  | skipDifferent (x y : Nibble)
  | setIndex (target : Address)
  | jumpFrom (base : Address)
  | random (x : Nibble) (mask : Byte)
  | draw (x y height : Nibble)
  | skipPressed (x : Nibble)
  | skipReleased (x : Nibble)
  | readDelay (x : Nibble)
  | awaitKey (x : Nibble)
  | setDelay (x : Nibble)
  | setSound (x : Nibble)
  | advanceIndex (x : Nibble)
  | pointGlyph (x : Nibble)
  | storeDecimal (x : Nibble)
  | saveRegisters (last : Nibble)
  | loadRegisters (last : Nibble)
deriving DecidableEq, Repr

namespace Instruction

/-! ## Decoding -/

/-- The arithmetic named by the last four bits of a word. -/
def decodeArithmetic (n : Nibble) : Option Arithmetic :=
  match n.toNat with
  | 0x0 => some .copy
  | 0x1 => some .or
  | 0x2 => some .and
  | 0x3 => some .xor
  | 0x4 => some .add
  | 0x5 => some .subtract
  | 0x6 => some .shiftRight
  | 0x7 => some .subtractFrom
  | 0xE => some .shiftLeft
  | _ => none

/-- The instruction of a word of family zero, told by its low byte alone. -/
def decodeSystem (low : Byte) : Option Instruction :=
  match low.toNat with
  | 0xE0 => some .clearScreen
  | 0xEE => some .ret
  | _ => none

/-- The instruction of a word of the keypad family. -/
def decodeKeypad (x : Nibble) (low : Byte) : Option Instruction :=
  match low.toNat with
  | 0x9E => some (.skipPressed x)
  | 0xA1 => some (.skipReleased x)
  | _ => none

/-- The instruction of a word of the last family, told by its low byte. -/
def decodeTransfer (x : Nibble) (low : Byte) : Option Instruction :=
  match low.toNat with
  | 0x07 => some (.readDelay x)
  | 0x0A => some (.awaitKey x)
  | 0x15 => some (.setDelay x)
  | 0x18 => some (.setSound x)
  | 0x1E => some (.advanceIndex x)
  | 0x29 => some (.pointGlyph x)
  | 0x33 => some (.storeDecimal x)
  | 0x55 => some (.saveRegisters x)
  | 0x65 => some (.loadRegisters x)
  | _ => none

/-- The instruction of a word, if the word is known. -/
def decode (w : Word) : Option Instruction :=
  match w.family.toNat with
  | 0x0 => decodeSystem w.lowByte
  | 0x1 => some (.jump w.target)
  | 0x2 => some (.call w.target)
  | 0x3 => some (.skipEqual w.x w.lowByte)
  | 0x4 => some (.skipUnequal w.x w.lowByte)
  | 0x5 => if w.lowNibble = 0 then some (.skipSame w.x w.y) else none
  | 0x6 => some (.assign w.x w.lowByte)
  | 0x7 => some (.increase w.x w.lowByte)
  | 0x8 => (decodeArithmetic w.lowNibble).map fun operation =>
      .combine operation w.x w.y
  | 0x9 => if w.lowNibble = 0 then some (.skipDifferent w.x w.y) else none
  | 0xA => some (.setIndex w.target)
  | 0xB => some (.jumpFrom w.target)
  | 0xC => some (.random w.x w.lowByte)
  | 0xD => some (.draw w.x w.y w.lowNibble)
  | 0xE => decodeKeypad w.x w.lowByte
  | _ => decodeTransfer w.x w.lowByte

end Instruction

end ChipEight

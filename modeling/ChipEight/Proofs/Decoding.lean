import ChipEight.Instruction
import Mathlib.Tactic.IntervalCases

/-!
# Which words are instructions

The decoder knows a word by its family and, in six families, by its last byte or
its last four bits.  `Word.IsKnown` says which words have an instruction without
going through the decoder, and `decode_eq_none_iff` says that the decoder has an
instruction for these words and no others.  `Word.AsksFor` says which words have
a given instruction, and `decode_eq_some_iff` that the decoder finds it.
-/

namespace ChipEight

/-- A word that asks for something known. -/
def Word.IsKnown (w : Word) : Prop :=
  w.family ∈ ([1, 2, 3, 4, 6, 7, 0xA, 0xB, 0xC, 0xD] : List Nibble) ∨
    w.family = 0 ∧ (w.lowByte = 0xE0 ∨ w.lowByte = 0xEE) ∨
    (w.family = 5 ∨ w.family = 9) ∧ w.lowNibble = 0 ∨
    w.family = 8 ∧ (w.lowNibble ≤ 7 ∨ w.lowNibble = 0xE) ∨
    w.family = 0xE ∧ (w.lowByte = 0x9E ∨ w.lowByte = 0xA1) ∨
    w.family = 0xF ∧
      w.lowByte ∈
        ([0x07, 0x0A, 0x15, 0x18, 0x1E, 0x29, 0x33, 0x55, 0x65] : List Byte)

instance (w : Word) : Decidable w.IsKnown := by
  unfold Word.IsKnown
  infer_instance

/-- The last four bits of the words for a way of combining registers. -/
def Arithmetic.code : Arithmetic → Nibble
  | copy => 0
  | or => 1
  | and => 2
  | xor => 3
  | add => 4
  | subtract => 5
  | shiftRight => 6
  | subtractFrom => 7
  | shiftLeft => 0xE

/-- The words that ask for an instruction. -/
def Word.AsksFor (w : Word) : Instruction → Prop
  | .clearScreen => w.family = 0 ∧ w.lowByte = 0xE0
  | .ret => w.family = 0 ∧ w.lowByte = 0xEE
  | .jump target => w.family = 1 ∧ w.target = target
  | .call target => w.family = 2 ∧ w.target = target
  | .skipEqual x value => w.family = 3 ∧ w.x = x ∧ w.lowByte = value
  | .skipUnequal x value => w.family = 4 ∧ w.x = x ∧ w.lowByte = value
  | .skipSame x y => w.family = 5 ∧ w.lowNibble = 0 ∧ w.x = x ∧ w.y = y
  | .assign x value => w.family = 6 ∧ w.x = x ∧ w.lowByte = value
  | .increase x value => w.family = 7 ∧ w.x = x ∧ w.lowByte = value
  | .combine operation x y =>
    w.family = 8 ∧ w.lowNibble = operation.code ∧ w.x = x ∧ w.y = y
  | .skipDifferent x y =>
    w.family = 9 ∧ w.lowNibble = 0 ∧ w.x = x ∧ w.y = y
  | .setIndex target => w.family = 0xA ∧ w.target = target
  | .jumpFrom base => w.family = 0xB ∧ w.target = base
  | .random x mask => w.family = 0xC ∧ w.x = x ∧ w.lowByte = mask
  | .draw x y height =>
    w.family = 0xD ∧ w.x = x ∧ w.y = y ∧ w.lowNibble = height
  | .skipPressed x => w.family = 0xE ∧ w.lowByte = 0x9E ∧ w.x = x
  | .skipReleased x => w.family = 0xE ∧ w.lowByte = 0xA1 ∧ w.x = x
  | .readDelay x => w.family = 0xF ∧ w.lowByte = 0x07 ∧ w.x = x
  | .awaitKey x => w.family = 0xF ∧ w.lowByte = 0x0A ∧ w.x = x
  | .setDelay x => w.family = 0xF ∧ w.lowByte = 0x15 ∧ w.x = x
  | .setSound x => w.family = 0xF ∧ w.lowByte = 0x18 ∧ w.x = x
  | .advanceIndex x => w.family = 0xF ∧ w.lowByte = 0x1E ∧ w.x = x
  | .pointGlyph x => w.family = 0xF ∧ w.lowByte = 0x29 ∧ w.x = x
  | .storeDecimal x => w.family = 0xF ∧ w.lowByte = 0x33 ∧ w.x = x
  | .saveRegisters last => w.family = 0xF ∧ w.lowByte = 0x55 ∧ w.x = last
  | .loadRegisters last => w.family = 0xF ∧ w.lowByte = 0x65 ∧ w.x = last

namespace Instruction

/-! ## One family at a time -/

theorem decodeSystem_eq_none_iff (low : Byte) :
    decodeSystem low = none ↔ ¬(low = 0xE0 ∨ low = 0xEE) := by
  unfold decodeSystem
  split <;> simp_all [BitVec.toNat_eq]

theorem decodeArithmetic_eq_none_iff (n : Nibble) :
    decodeArithmetic n = none ↔ ¬(n ≤ 7 ∨ n = 0xE) := by
  revert n
  decide

theorem decodeArithmetic_eq_some_iff (n : Nibble) (operation : Arithmetic) :
    decodeArithmetic n = some operation ↔ n = operation.code := by
  revert n
  cases operation <;> decide

theorem decodeKeypad_eq_none_iff (x : Nibble) (low : Byte) :
    decodeKeypad x low = none ↔ ¬(low = 0x9E ∨ low = 0xA1) := by
  unfold decodeKeypad
  split <;> simp_all [BitVec.toNat_eq]

theorem decodeTransfer_eq_none_iff (x : Nibble) (low : Byte) :
    decodeTransfer x low = none ↔
      low ∉
        ([0x07, 0x0A, 0x15, 0x18, 0x1E, 0x29, 0x33, 0x55, 0x65] :
          List Byte) := by
  unfold decodeTransfer
  split <;> simp_all [BitVec.toNat_eq]

theorem asksFor_of_decodeSystem
    {w : Word} {i : Instruction} (family : w.family = 0)
    (decoded : decodeSystem w.lowByte = some i) : w.AsksFor i := by
  unfold decodeSystem at decoded
  split at decoded
  case h_1 low | h_2 low =>
      cases decoded
      exact ⟨family, BitVec.eq_of_toNat_eq low⟩
  case h_3 =>
      cases decoded

theorem asksFor_of_decodeKeypad
    {w : Word} {i : Instruction} (family : w.family = 0xE)
    (decoded : decodeKeypad w.x w.lowByte = some i) : w.AsksFor i := by
  unfold decodeKeypad at decoded
  split at decoded
  case h_1 low | h_2 low =>
      cases decoded
      exact ⟨family, BitVec.eq_of_toNat_eq low, rfl⟩
  case h_3 =>
      cases decoded

theorem asksFor_of_decodeTransfer
    {w : Word} {i : Instruction} (family : w.family = 0xF)
    (decoded : decodeTransfer w.x w.lowByte = some i) : w.AsksFor i := by
  unfold decodeTransfer at decoded
  split at decoded
  case h_10 =>
      cases decoded
  case h_1 low | h_2 low | h_3 low | h_4 low | h_5 low | h_6 low | h_7 low
      | h_8 low | h_9 low =>
      cases decoded
      exact ⟨family, BitVec.eq_of_toNat_eq low, rfl⟩

/-! ## All families -/

theorem decode_eq_none_iff (w : Word) :
    decode w = none ↔ ¬w.IsKnown := by
  have familyBound := w.family.toNat_lt_sixteen
  interval_cases family : w.family.toNat <;>
    simp [decode, Word.IsKnown, BitVec.toNat_eq, family,
      decodeSystem_eq_none_iff, decodeArithmetic_eq_none_iff,
      decodeKeypad_eq_none_iff, decodeTransfer_eq_none_iff]

theorem decode_of_asksFor {w : Word} {i : Instruction} (asks : w.AsksFor i) :
    decode w = some i := by
  cases i with
  | combine operation x y =>
      obtain ⟨family, code, rfl, rfl⟩ := asks
      have decoded := (decodeArithmetic_eq_some_iff _ _).mpr code
      simp [decode, family, decoded]
  | _ =>
      simp only [Word.AsksFor] at asks
      simp [decode, decodeSystem, decodeKeypad, decodeTransfer, asks]

theorem asksFor_of_decode {w : Word} {i : Instruction}
    (decoded : decode w = some i) : w.AsksFor i := by
  unfold decode at decoded
  split at decoded
  case h_1 number =>
      exact asksFor_of_decodeSystem (BitVec.eq_of_toNat_eq number) decoded
  case h_2 number | h_3 number | h_11 number | h_12 number =>
      cases decoded
      exact ⟨BitVec.eq_of_toNat_eq number, rfl⟩
  case h_4 number | h_5 number | h_7 number | h_8 number | h_13 number =>
      cases decoded
      exact ⟨BitVec.eq_of_toNat_eq number, rfl, rfl⟩
  case h_6 number | h_10 number =>
      split at decoded
      · rename_i isZero
        cases decoded
        exact ⟨BitVec.eq_of_toNat_eq number, isZero, rfl, rfl⟩
      · cases decoded
  case h_9 number =>
      obtain ⟨operation, named, rfl⟩ := Option.map_eq_some_iff.mp decoded
      exact ⟨BitVec.eq_of_toNat_eq number,
        (decodeArithmetic_eq_some_iff _ _).mp named, rfl, rfl⟩
  case h_14 number =>
      cases decoded
      exact ⟨BitVec.eq_of_toNat_eq number, rfl, rfl, rfl⟩
  case h_15 number =>
      exact asksFor_of_decodeKeypad (BitVec.eq_of_toNat_eq number) decoded
  case h_16 =>
      have bound := w.family.toNat_lt_sixteen
      have family : w.family = 0xF := by
        apply BitVec.eq_of_toNat_eq
        change w.family.toNat = 15
        simp only [imp_false] at *
        omega
      exact asksFor_of_decodeTransfer family decoded

/-- The decoder gives an instruction to the words that ask for it and to no
others. -/
theorem decode_eq_some_iff (w : Word) (i : Instruction) :
    decode w = some i ↔ w.AsksFor i :=
  ⟨asksFor_of_decode, decode_of_asksFor⟩

theorem decode_eq_ret_iff (w : Word) :
    decode w = some .ret ↔ w.family = 0 ∧ w.lowByte = 0xEE :=
  decode_eq_some_iff w .ret

theorem decode_eq_call_iff (w : Word) (target : Address) :
    decode w = some (.call target) ↔ w.family = 2 ∧ w.target = target :=
  decode_eq_some_iff w (.call target)

end Instruction

end ChipEight

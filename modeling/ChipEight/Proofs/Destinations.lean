import ChipEight.Proofs.Cycle

/-!
# Where instructions write

Which registers an instruction writes to, and what it leaves alone besides.
Arithmetic and drawing write to the flag register besides the one that they name,
and an instruction that awaits a key writes to none as long as no key is held down.
-/

namespace ChipEight

/-! ## Destinations -/

/-- The ways of combining registers that leave a flag. -/
def Arithmetic.leavesFlag : Arithmetic → Bool
  | copy | or | and | xor => false
  | add | subtract | shiftRight | subtractFrom | shiftLeft => true

theorem Arithmetic.flag_eq_none_iff (operation : Arithmetic) (a b : Byte) :
    operation.flag? a b = none ↔ operation.leavesFlag = false := by
  cases operation <;> simp [flag?, leavesFlag]

def Instruction.movesIndex : Instruction → Bool
  | .setIndex _ | .advanceIndex _ | .pointGlyph _ => true
  | _ => false

namespace Machine

/-- The registers to which a machine writes for an instruction. -/
def Targets (m : Machine) (instruction : Instruction) (r : Nibble) : Prop :=
  match instruction with
  | .assign x _ | .increase x _ | .random x _ | .readDelay x => r = x
  | .combine operation x _ =>
    r = x ∨ r = Registers.flag ∧ operation.leavesFlag = true
  | .draw .. => r = Registers.flag
  | .awaitKey x => r = x ∧ ∃ key, m.keypad.isPressed key = true
  | .loadRegisters last => r ≤ last
  | _ => False

/-! ## Registers written -/

theorem v_setRegister (m : Machine) (x r : Nibble) (b : Byte) :
    (m.setRegister x b).v r = if x = r then b else m.v r :=
  Registers.get_set m.registers x r b

theorem v_setRegister_of_ne
    (m : Machine) {x r : Nibble} (b : Byte) (other : r ≠ x) :
    (m.setRegister x b).v r = m.v r := by
  rw [v_setRegister, if_neg (Ne.symm other)]

theorem v_combine_of_flag
    {m : Machine} {operation : Arithmetic} {x y : Nibble} {flag : Bool}
    (leaves : operation.flag? (m.v x) (m.v y) = some flag) (r : Nibble) :
    (m.combine operation x y).v r =
      if Registers.flag = r then Arithmetic.flagByte flag
      else if x = r then operation.result (m.v x) (m.v y)
      else m.v r := by
  simp only [combine, leaves, v_setRegister]

theorem v_combine_of_no_flag
    {m : Machine} {operation : Arithmetic} {x y : Nibble}
    (leavesNone : operation.flag? (m.v x) (m.v y) = none) (r : Nibble) :
    (m.combine operation x y).v r =
      if x = r then operation.result (m.v x) (m.v y) else m.v r := by
  simp only [combine, leavesNone, v_setRegister]

theorem v_combine_of_elsewhere
    (m : Machine) {operation : Arithmetic} {x y r : Nibble}
    (elsewhere : ¬m.Targets (.combine operation x y) r) :
    (m.combine operation x y).v r = m.v r := by
  obtain ⟨otherRegister, noFlag⟩ := not_or.mp elsewhere
  cases leaves : operation.flag? (m.v x) (m.v y) with
  | none =>
      rw [v_combine_of_no_flag leaves, if_neg (Ne.symm otherRegister)]
  | some flag =>
      have leavesOne : operation.leavesFlag = true := by
        rw [← Bool.not_eq_false, ← operation.flag_eq_none_iff, leaves]
        exact Option.some_ne_none flag
      have otherFlag : r ≠ Registers.flag :=
        fun isFlag => noFlag ⟨isFlag, leavesOne⟩
      rw [v_combine_of_flag leaves, if_neg (Ne.symm otherFlag),
        if_neg (Ne.symm otherRegister)]

/-! ## Parts left alone -/

/-- What an instruction that is carried out leaves alone: the settings and the latest
word always, the index unless it moves it, and the registers to which it does not
write. -/
structure Spares (instruction : Instruction) (m next : Machine) : Prop where
  settings : next.settings = m.settings
  lastWord : next.lastWord = m.lastWord
  index : instruction.movesIndex = false → next.index = m.index
  registers : ∀ r, ¬m.Targets instruction r → next.v r = m.v r

theorem spares_of_executed
    {m next : Machine} {instruction : Instruction}
    (executed : m.execute instruction = .ok next) :
    Spares instruction m next := by
  cases instruction with
  | assign x value | increase x value | random x mask | readDelay x =>
      cases executed
      refine ⟨rfl, rfl, fun _ => rfl, ?_⟩
      intro r elsewhere
      exact v_setRegister_of_ne _ _ elsewhere
  | combine operation x y =>
      cases executed
      refine ⟨by rw [combine_eq], by rw [combine_eq],
        fun _ => by rw [combine_eq], ?_⟩
      intro r elsewhere
      exact m.v_combine_of_elsewhere elsewhere
  | draw x y height =>
      cases executed
      refine ⟨rfl, rfl, fun _ => rfl, ?_⟩
      intro r elsewhere
      exact (Registers.get_set _ _ _ _).trans (if_neg (Ne.symm elsewhere))
  | awaitKey x =>
      cases pressed : m.keypad.firstPressed with
      | none =>
          simp only [execute, pressed] at executed
          cases executed
          exact ⟨rfl, rfl, fun _ => rfl, fun _ _ => rfl⟩
      | some key =>
          simp only [execute, pressed] at executed
          cases executed
          have isHeld : m.keypad.isPressed key = true :=
            ((m.keypad.firstPressed_eq_some_iff key).mp pressed).1
          refine ⟨rfl, rfl, fun _ => rfl, ?_⟩
          intro r elsewhere
          have other : r ≠ x := fun same => elsewhere ⟨same, key, isHeld⟩
          exact v_setRegister_of_ne _ _ other
  | loadRegisters last =>
      cases executed
      refine ⟨rfl, rfl, fun _ => rfl, ?_⟩
      intro r elsewhere
      have beyond :
          (m.memory.window m.index (last.toNat + 1)).length ≤ r.toNat := by
        rw [Memory.length_window]
        exact BitVec.not_le.mp elsewhere
      exact m.registers.get_fill_of_length_le beyond
  | setIndex target | advanceIndex x | pointGlyph x =>
      cases executed
      refine ⟨rfl, rfl, ?_, fun _ _ => rfl⟩
      intro impossible
      cases impossible
  | ret =>
      cases popped : m.stack.pop? <;>
        simp only [execute, popped] at executed <;> cases executed
      exact ⟨rfl, rfl, fun _ => rfl, fun _ _ => rfl⟩
  | call target =>
      cases pushed : m.stack.push? m.pc <;>
        simp only [execute, pushed] at executed <;> cases executed
      exact ⟨rfl, rfl, fun _ => rfl, fun _ _ => rfl⟩
  | skipEqual x value | skipUnequal x value | skipSame x y
  | skipDifferent x y | skipPressed x | skipReleased x =>
      cases executed
      rw [skipIf_eq]
      exact ⟨rfl, rfl, fun _ => rfl, fun _ _ => rfl⟩
  | _ =>
      cases executed
      exact ⟨rfl, rfl, fun _ => rfl, fun _ _ => rfl⟩

end Machine

end ChipEight

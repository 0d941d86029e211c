import ChipEight.Proofs.Cycle
import ChipEight.Proofs.Wide.Handlers

/-!
# Every word on wide numbers

Whatever word is found at the counter, the machine on wide numbers stays in
bounds and comes to what the machine comes to.  Words that are told by more
than their family, calls and returns are taken one family at a time.
-/

namespace ChipEight

/-! ## Any word at the counter -/

/-- What becomes of a machine whose counter is past a word when it does what the
word asks for. -/
def Machine.perform (m : Machine) (w : Word) : Outcome :=
  match Instruction.decode w with
  | none => m.meetUnknown w (m.pc - 2)
  | some instruction =>
    match m.execute instruction with
    | .ok next => { machine := next }
    | .error fault =>
      { machine := m
        reply := .refused (fault.at (m.pc - 2))
        messages := [.refused fault (m.pc - 2)] }

/-- What becomes of a machine that finds a word at its counter. -/
def Machine.obey (m : Machine) (w : Word) : Outcome :=
  Machine.perform { m with lastWord := w, pc := m.pc + 2 } w

theorem Machine.advance_eq_obey (m : Machine) :
    m.advance = m.obey m.nextWord := by
  have back : m.pc + 2 - 2 = m.pc := BitVec.add_sub_cancel m.pc 2
  rw [advance, obey, perform, back]
  rfl

namespace WideMachine

open Checked

/-! ## Outcomes -/

/-- A computation stays in bounds and comes to an outcome of the machine. -/
def Reaches (attempt : Attempt) (outcome : Outcome) : Prop :=
  ∃ slots, Carries slots outcome.machine.stack ∧
    attempt = .ok (outcome.machine.widen slots, outcome.reply)

variable {m : Machine} {slots : Vector Word 16} {w : Word}

theorem reaches_of_unknown
    (carries : Carries slots m.stack)
    (unknown : Instruction.decode w = none) {attempt : Attempt}
    (met : attempt = .ok ((m.widen slots).meetUnknown w)) :
    Reaches attempt (m.perform w) := by
  have policyKept : (m.widen slots).settings = m.settings := rfl
  rw [Machine.perform, unknown, met]
  refine ⟨slots, ?_, ?_⟩
  · rw [Machine.machine_meetUnknown]
    exact carries
  · rw [meetUnknown, Machine.meetUnknown, policyKept]
    cases m.settings.unknown with
    | ignore =>
        rfl
    | fail =>
        rw [instructionAddress_widen]

theorem reaches_of_executed
    {next : Machine} {instruction : Instruction}
    (known : Instruction.decode w = some instruction)
    (executed : m.execute instruction = .ok next)
    (carries : Carries slots next.stack) {attempt : Attempt}
    (ran : attempt = .ok (next.widen slots, .done)) :
    Reaches attempt (m.perform w) := by
  rw [Machine.perform, known]
  simp only [executed]
  exact ⟨slots, carries, ran⟩

theorem reaches_of_refused
    {fault : StackFault} {instruction : Instruction}
    (known : Instruction.decode w = some instruction)
    (refused : m.execute instruction = .error fault)
    (carries : Carries slots m.stack) {attempt : Attempt}
    (told : attempt =
      .ok (m.widen slots, .refused (fault.at (m.pc - 2)))) :
    Reaches attempt (m.perform w) := by
  rw [Machine.perform, known]
  simp only [refused]
  exact ⟨slots, carries, told⟩

theorem carries_skipIf
    (carries : Carries slots m.stack) (condition : Bool) :
    Carries slots (m.skipIf condition).stack := by
  rw [Machine.stack_skipIf]
  exact carries

/-! ## Calls and returns -/

theorem call_reaches
    (carries : Carries slots m.stack)
    (known : Instruction.decode w = some (.call w.target)) :
    Reaches ((m.widen slots).call w) (m.perform w) := by
  cases isPushed : m.stack.push? m.pc with
  | none =>
      have isFull : 16 ≤ (m.widen slots).depth.toNat := by
        rw [depth_widen, CallStack.push?_eq_none_iff.mp isPushed]
        exact Nat.le_refl _
      have refused : m.execute (.call w.target) = .error .overflow := by
        simp only [Machine.execute, isPushed]
      apply reaches_of_refused known refused carries
      rw [call, if_pos isFull, instructionAddress_widen]
      rfl
  | some pushed =>
      have room : m.stack.depth < 16 :=
        (CallStack.push?_eq_some_iff.mp isPushed).1
      have hasRoom : ¬16 ≤ (m.widen slots).depth.toNat := by
        rw [depth_widen]
        exact Nat.not_le.mpr room
      have oneDeeper : pushed.depth = m.stack.depth + 1 :=
        CallStack.depth_of_push? isPushed
      have fitting : m.stack.depth + 1 < Nat.pow 2 16 :=
        Nat.lt_trans (Nat.succ_lt_succ room) (by decide)
      have executed :
          m.execute (.call w.target) =
            .ok { m with pc := w.target, stack := pushed } := by
        simp only [Machine.execute, isPushed]
      apply reaches_of_executed known executed
        (carries.push isPushed room)
      rw [call, if_neg hasRoom, depth_widen,
        replace_eq (m.widen slots).slots _ room, ok_bind,
        fits_eq fitting, ok_bind, target_eq, ← oneDeeper]
      rfl

theorem ret_reaches
    (carries : Carries slots m.stack)
    (isReturn : w.lowByte.toNat = 0xEE)
    (known : Instruction.decode w = some .ret) :
    Reaches ((m.widen slots).system w) (m.perform w) := by
  rw [system, lowByte_eq, isReturn]
  cases isPopped : m.stack.pop? with
  | none =>
      have isEmpty : (m.widen slots).depth = 0 := by
        apply BitVec.eq_of_toNat_eq
        rw [depth_widen, CallStack.pop?_eq_none_iff.mp isPopped]
        rfl
      have refused : m.execute .ret = .error .underflow := by
        simp only [Machine.execute, isPopped]
      apply reaches_of_refused known refused carries
      change ite _ _ _ = _
      rw [if_pos isEmpty, instructionAddress_widen]
      rfl
  | some frame =>
      obtain ⟨goesOnAt, stack⟩ := frame
      have bounded : m.stack.depth ≤ 16 := m.stack.depth_le
      have oneDeeper : m.stack.depth = stack.depth + 1 :=
        CallStack.depth_of_pop? isPopped
      have inSlots : stack.depth < 16 := by
        omega
      obtain ⟨topSlot, below⟩ := carries.pop isPopped inSlots
      have wideDepth :
          (m.widen slots).depth = BitVec.ofNat 16 (stack.depth + 1) :=
        congrArg (BitVec.ofNat 16) oneDeeper
      have notEmpty : ¬(m.widen slots).depth = 0 := by
        intro isEmpty
        have noDepth := congrArg BitVec.toNat isEmpty
        rw [depth_widen, oneDeeper] at noDepth
        exact Nat.succ_ne_zero _ noDepth
      have place : (BitVec.ofNat 16 stack.depth).toNat = stack.depth :=
        Nat.mod_eq_of_lt (by omega)
      have executed :
          m.execute .ret =
            .ok { m with pc := goesOnAt, stack := stack } := by
        simp only [Machine.execute, isPopped]
      apply reaches_of_executed known executed below
      change ite _ _ _ = _
      rw [if_neg notEmpty, wideDepth, minus_one_succ inSlots, ok_bind, place,
        element_eq (m.widen slots).slots inSlots, ok_bind]
      change Except.ok (WideMachine.mk _ _ _ _ slots[stack.depth] _ _ _ _
        _ _ _ _, _) = _
      rw [topSlot]
      rfl

/-! ## Families whose words are told by more than their family -/

theorem system_reaches
    (carries : Carries slots m.stack)
    (decoded : Instruction.decode w = Instruction.decodeSystem w.lowByte) :
    Reaches ((m.widen slots).system w) (m.perform w) := by
  unfold Instruction.decodeSystem at decoded
  split at decoded
  · rename_i isClear
    apply reaches_of_executed decoded rfl carries
    rw [system, lowByte_eq, isClear]
    rfl
  · rename_i isReturn
    exact ret_reaches carries isReturn decoded
  · apply reaches_of_unknown carries decoded
    rw [system, lowByte_eq]
    split
    · contradiction
    · contradiction
    · rfl

theorem skipRegister_reaches
    (carries : Carries slots m.stack) (compare : Byte → Byte → Bool)
    (instruction : Instruction)
    (executed : m.execute instruction =
      .ok (m.skipIf (compare (m.v w.x) (m.v w.y))))
    (decoded : Instruction.decode w =
      if w.lowNibble = 0 then some instruction else none) :
    Reaches ((m.widen slots).skipRegister compare w) (m.perform w) := by
  by_cases isZero : w.lowNibble = 0
  · have known : Instruction.decode w = some instruction := by
      rw [decoded, if_pos isZero]
    have zeroNibble : ¬lowNibble w ≠ 0 := by
      rw [lowNibble_eq, isZero]
      decide
    apply reaches_of_executed known executed (carries_skipIf carries _)
    rw [skipRegister, if_neg zeroNibble, x_eq, register_widen, ok_bind,
      y_eq, register_widen, ok_bind, skipIf_widen]
    rfl
  · have unknown : Instruction.decode w = none := by
      rw [decoded, if_neg isZero]
    have otherNibble : lowNibble w ≠ 0 := by
      rw [lowNibble_eq]
      intro zeroNibble
      exact isZero (BitVec.eq_of_toNat_eq zeroNibble)
    apply reaches_of_unknown carries unknown
    rw [skipRegister, if_pos otherNibble]

theorem combine_reaches
    (carries : Carries slots m.stack)
    (decoded : Instruction.decode w =
      (Instruction.decodeArithmetic w.lowNibble).map fun operation =>
        .combine operation w.x w.y) :
    Reaches ((m.widen slots).combine w) (m.perform w) := by
  have sameNibble : BitVec.ofNat 4 (lowNibble w) = w.lowNibble := by
    rw [lowNibble_eq, BitVec.ofNat_toNat, BitVec.setWidth_eq]
  rw [combine, x_eq, register_widen, ok_bind, y_eq, register_widen, ok_bind,
    sameNibble]
  cases arithmetic : Instruction.decodeArithmetic w.lowNibble with
  | none =>
      have unknown : Instruction.decode w = none := by
        rw [decoded, arithmetic]
        rfl
      exact reaches_of_unknown carries unknown rfl
  | some operation =>
      have known :
          Instruction.decode w = some (.combine operation w.x w.y) := by
        rw [decoded, arithmetic]
        rfl
      have sameStack :
          Carries slots (m.combine operation w.x w.y).stack := by
        rw [Machine.stack_combine]
        exact carries
      exact reaches_of_executed known rfl sameStack
        (putCombined_widen m slots w operation)

theorem keypad_reaches
    (carries : Carries slots m.stack)
    (decoded : Instruction.decode w =
      Instruction.decodeKeypad w.x w.lowByte) :
    Reaches ((m.widen slots).keypad w) (m.perform w) := by
  unfold Instruction.decodeKeypad at decoded
  split at decoded
  · rename_i isPressed
    apply reaches_of_executed decoded rfl (carries_skipIf carries _)
    rw [keypad, x_eq, register_widen, ok_bind, pressed_widen, ok_bind,
      lowByte_eq, isPressed, ← skipIf_widen]
    rfl
  · rename_i isReleased
    apply reaches_of_executed decoded rfl (carries_skipIf carries _)
    rw [keypad, x_eq, register_widen, ok_bind, pressed_widen, ok_bind,
      lowByte_eq, isReleased, ← skipIf_widen]
    rfl
  · apply reaches_of_unknown carries decoded
    rw [keypad, x_eq, register_widen, ok_bind, pressed_widen, ok_bind,
      lowByte_eq]
    split
    · contradiction
    · contradiction
    · rfl

theorem awaitKey_reaches
    (carries : Carries slots m.stack)
    (decoded : Instruction.decode w = some (.awaitKey w.x)) :
    Reaches ((m.widen slots).awaitKey w) (m.perform w) := by
  cases found : m.keypad.firstPressed with
  | none =>
      have executed :
          m.execute (.awaitKey w.x) = .ok { m with pc := m.pc - 2 } := by
        simp only [Machine.execute, found]
      have back : mask ((m.widen slots).pc - 2) = (m.pc - 2).toWord :=
        mask_sub_two m.pc
      apply reaches_of_executed decoded executed carries
      rw [awaitKey, firstPressed_widen, found, back]
      rfl
  | some key =>
      have executed :
          m.execute (.awaitKey w.x) =
            .ok (m.setRegister w.x (key.setWidth 8)) := by
        simp only [Machine.execute, found]
      apply reaches_of_executed decoded executed carries
      rw [awaitKey, firstPressed_widen, found, x_eq]
      change (WideMachine.setRegister _ _ _ >>= _) = _
      rw [setRegister_widen, ok_bind]
      rfl

theorem transfer_reaches
    (carries : Carries slots m.stack)
    (decoded : Instruction.decode w =
      Instruction.decodeTransfer w.x w.lowByte) :
    Reaches ((m.widen slots).transfer w) (m.perform w) := by
  unfold Instruction.decodeTransfer at decoded
  split at decoded
  · rename_i isReadDelay
    apply reaches_of_executed decoded rfl carries
    rw [transfer, lowByte_eq, isReadDelay]
    change ((m.widen slots).setRegister (x w) m.timers.delay >>= _) = _
    rw [x_eq, setRegister_widen, ok_bind]
    rfl
  · rename_i isAwaitKey
    rw [transfer, lowByte_eq, isAwaitKey]
    exact awaitKey_reaches carries decoded
  · rename_i isSetDelay
    apply reaches_of_executed decoded rfl carries
    rw [transfer, lowByte_eq, isSetDelay]
    change ((m.widen slots).register (x w) >>= _) = _
    rw [x_eq, register_widen, ok_bind]
    rfl
  · rename_i isSetSound
    apply reaches_of_executed decoded rfl carries
    rw [transfer, lowByte_eq, isSetSound]
    change ((m.widen slots).register (x w) >>= _) = _
    rw [x_eq, register_widen, ok_bind]
    rfl
  · rename_i isAdvanceIndex
    apply reaches_of_executed decoded rfl carries
    rw [transfer, lowByte_eq, isAdvanceIndex]
    change ((m.widen slots).register (x w) >>= _) = _
    rw [x_eq, register_widen, ok_bind]
    change Except.ok (WideMachine.mk _ _ _
      (mask (m.index.toWord + (m.v w.x).setWidth 16)) _ _ _ _ _ _ _ _ _,
      _) = _
    rw [mask_add_byte]
    rfl
  · rename_i isPointGlyph
    apply reaches_of_executed decoded rfl carries
    rw [transfer, lowByte_eq, isPointGlyph]
    change ((m.widen slots).register (x w) >>= _) = _
    rw [x_eq, register_widen, ok_bind, fits_glyph, ok_bind]
    rfl
  · rename_i isStoreDecimal
    apply reaches_of_executed decoded rfl carries
    rw [transfer, lowByte_eq, isStoreDecimal]
    change ((m.widen slots).register (x w) >>= _) = _
    rw [x_eq, register_widen, ok_bind, storeDecimal_widen, ok_bind]
    rfl
  · rename_i isSaveRegisters
    apply reaches_of_executed decoded rfl carries
    rw [transfer, lowByte_eq, isSaveRegisters]
    change ((m.widen slots).saveRegisters (x w + 1) >>= _) = _
    rw [x_eq, saveRegisters_widen _ _ _ w.x.isLt, ok_bind]
    rfl
  · rename_i isLoadRegisters
    apply reaches_of_executed decoded rfl carries
    rw [transfer, lowByte_eq, isLoadRegisters]
    change ((m.widen slots).loadRegisters (x w + 1) >>= _) = _
    rw [x_eq, loadRegisters_widen _ _ _ w.x.isLt, ok_bind]
    rfl
  · apply reaches_of_unknown carries decoded
    rw [transfer, lowByte_eq]
    split <;> first | contradiction | rfl

/-! ## Every word -/

theorem perform_reaches (carries : Carries slots m.stack) :
    Reaches ((m.widen slots).perform w) (m.perform w) := by
  have familyBound := w.family.toNat_lt_sixteen
  rw [perform, family_eq]
  interval_cases family : w.family.toNat
  · apply system_reaches carries
    rw [Instruction.decode, family]
    rfl
  · have known : Instruction.decode w = some (.jump w.target) := by
      rw [Instruction.decode, family]
      rfl
    exact reaches_of_executed known rfl carries (jump_widen m slots w)
  · apply call_reaches carries
    rw [Instruction.decode, family]
    rfl
  · have known : Instruction.decode w = some (.skipEqual w.x w.lowByte) := by
      rw [Instruction.decode, family]
      rfl
    exact reaches_of_executed known rfl (carries_skipIf carries _)
      (skipByte_widen m slots w _)
  · have known : Instruction.decode w = some (.skipUnequal w.x w.lowByte) := by
      rw [Instruction.decode, family]
      rfl
    exact reaches_of_executed known rfl (carries_skipIf carries _)
      (skipByte_widen m slots w _)
  · apply skipRegister_reaches carries (· == ·) (.skipSame w.x w.y) rfl
    rw [Instruction.decode, family]
    rfl
  · have known : Instruction.decode w = some (.assign w.x w.lowByte) := by
      rw [Instruction.decode, family]
      rfl
    exact reaches_of_executed known rfl carries (assign_widen m slots w)
  · have known : Instruction.decode w = some (.increase w.x w.lowByte) := by
      rw [Instruction.decode, family]
      rfl
    exact reaches_of_executed known rfl carries (increase_widen m slots w)
  · apply combine_reaches carries
    rw [Instruction.decode, family]
    rfl
  · apply skipRegister_reaches carries (· != ·) (.skipDifferent w.x w.y) rfl
    rw [Instruction.decode, family]
    rfl
  · have known : Instruction.decode w = some (.setIndex w.target) := by
      rw [Instruction.decode, family]
      rfl
    exact reaches_of_executed known rfl carries (setIndex_widen m slots w)
  · have known : Instruction.decode w = some (.jumpFrom w.target) := by
      rw [Instruction.decode, family]
      rfl
    exact reaches_of_executed known rfl carries (jumpFrom_widen m slots w)
  · have known : Instruction.decode w = some (.random w.x w.lowByte) := by
      rw [Instruction.decode, family]
      rfl
    exact reaches_of_executed known rfl carries (randomByte_widen m slots w)
  · have known : Instruction.decode w = some (.draw w.x w.y w.lowNibble) := by
      rw [Instruction.decode, family]
      rfl
    exact reaches_of_executed known rfl carries (draw_widen m slots w)
  · apply keypad_reaches carries
    rw [Instruction.decode, family]
    rfl
  · apply transfer_reaches carries
    rw [Instruction.decode, family]
    rfl

theorem obey_reaches (carries : Carries slots m.stack) :
    Reaches ((m.widen slots).obey w) (m.obey w) := by
  have fetched :
      { m.widen slots with
        lastWord := w, pc := mask ((m.widen slots).pc + 2) } =
          Machine.widen { m with lastWord := w, pc := m.pc + 2 } slots := by
    have next : mask ((m.widen slots).pc + 2) = (m.pc + 2).toWord :=
      mask_add_two m.pc
    rw [next]
    rfl
  have performed :
      Reaches
        ((Machine.widen { m with lastWord := w, pc := m.pc + 2 }
          slots).perform w) (m.obey w) :=
    perform_reaches carries
  obtain ⟨later, stillCarries, done⟩ := performed
  refine ⟨later, stillCarries, ?_⟩
  rw [obey, fetched, done, ok_bind, frames_widen _ _ stillCarries]
  rfl

end WideMachine

end ChipEight

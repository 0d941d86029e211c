import ChipEight.Proofs.Wide.Devices

/-!
# The stack in slots and the plain handlers

The stack of the machine on wide numbers is a row of slots.  `Carries` ties the
slots in use to the call stack.  The handlers below carry every word out, and
each is given by what it makes of the machine.
-/

namespace ChipEight

/-! ## The stack in slots -/

/-- The slots in use carry the return addresses of a stack. -/
def Carries (slots : Vector Word 16) (stack : CallStack) : Prop :=
  slots.toList.take stack.depth = stack.toList.map Address.toWord

namespace Carries

theorem empty (slots : Vector Word 16) : Carries slots .empty := rfl

theorem push
    {slots : Vector Word 16} {stack pushed : CallStack} {a : Address}
    (carries : Carries slots stack) (isPushed : stack.push? a = some pushed)
    (room : stack.depth < 16) :
    Carries (slots.set stack.depth a.toWord room) pushed := by
  have onTop : pushed.toList = stack.toList ++ [a] :=
    (CallStack.push?_eq_some_iff.mp isPushed).2
  have inSlots :
      stack.depth < (slots.toList.set stack.depth a.toWord).length := by
    simpa using room
  rw [Carries] at carries ⊢
  rw [CallStack.depth_of_push? isPushed, onTop, Vector.toList_set,
    List.take_succ_eq_append_getElem inSlots, List.getElem_set_self,
    List.take_set_of_le (Nat.le_refl _), carries, List.map_append]
  rfl

/-- The slot under the depth holds the address that a return takes off. -/
theorem pop
    {slots : Vector Word 16} {stack popped : CallStack} {a : Address}
    (carries : Carries slots stack)
    (isPopped : stack.pop? = some (a, popped))
    (inSlots : popped.depth < 16) :
    slots[popped.depth] = a.toWord ∧ Carries slots popped := by
  have onTop : stack.toList = popped.toList ++ [a] :=
    CallStack.pop?_eq_some_iff.mp isPopped
  have inList : popped.depth < slots.toList.length := by
    rw [Vector.length_toList]
    exact inSlots
  rw [Carries, CallStack.depth_of_pop? isPopped, onTop,
    List.take_succ_eq_append_getElem inList, List.map_append] at carries
  obtain ⟨below, top⟩ := List.append_inj' carries rfl
  refine ⟨?_, below⟩
  have topSlot : slots.toList[popped.depth] = a.toWord :=
    (List.cons.inj top).1
  rw [Vector.getElem_toList] at topSlot
  exact topSlot

end Carries

namespace WideMachine

open Checked

variable (m : Machine) (slots : Vector Word 16) (w : Word)

theorem depth_widen :
    (m.widen slots).depth.toNat = m.stack.depth := by
  have bounded : m.stack.depth ≤ 16 := m.stack.depth_le
  exact Nat.mod_eq_of_lt (by omega)

theorem frames_widen (carries : Carries slots m.stack) :
    (m.widen slots).frames = .ok (m.stack.toList.map Address.toWord) := by
  have bounded : m.stack.depth ≤ 16 := m.stack.depth_le
  rw [frames, depth_widen, before, if_pos bounded]
  exact congrArg Except.ok carries

theorem instructionAddress_widen :
    (m.widen slots).instructionAddress = (m.pc - 2).toWord :=
  mask_sub_two m.pc

/-! ## Sums and differences in range -/

theorem minus_one_succ {k : Nat} (small : k < 16) :
    minus (BitVec.ofNat 16 (k + 1)) 1 = .ok (BitVec.ofNat 16 k) := by
  have number : (BitVec.ofNat 16 (k + 1)).toNat = k + 1 :=
    Nat.mod_eq_of_lt (by omega)
  have notLess : 1 ≤ BitVec.ofNat 16 (k + 1) := by
    rw [BitVec.le_def, number]
    exact Nat.succ_le_succ (Nat.zero_le k)
  rw [minus, if_pos notLess, BitVec.ofNat_add]
  exact congrArg Except.ok (BitVec.add_sub_cancel _ _)

theorem mask_add_byte (a : Address) (b : Byte) :
    mask (a.toWord + b.setWidth 16) = (a + b.toAddress).toWord := by
  rw [mask_eq, setWidth_toWord_add,
    BitVec.setWidth_setWidth_of_le b (by decide)]
  rfl

theorem fits_glyph (digit : Byte) :
    fits 16 (digit.toNat * Font.glyphHeight) =
      .ok (Font.glyphAddress digit).toWord := by
  have bounded := digit.isLt
  have product :
      digit.toNat * Font.glyphHeight = (Font.glyphAddress digit).toNat := by
    rw [Font.toNat_glyphAddress, Nat.mul_comm]
  have fitting : (Font.glyphAddress digit).toNat < Nat.pow 2 16 :=
    Nat.lt_trans (Font.glyphAddress digit).toNat_lt_size (by decide)
  rw [product, fits_eq fitting, Address.toWord, BitVec.ofNat_toNat]

/-! ## Handlers that always carry their word out -/

theorem jump_widen :
    (m.widen slots).jump w =
      .ok (Machine.widen { m with pc := w.target } slots, .done) := by
  rw [jump, target_eq]
  rfl

theorem skipByte_widen (compare : Byte → Byte → Bool) :
    (m.widen slots).skipByte compare w =
      .ok ((m.skipIf (compare (m.v w.x) w.lowByte)).widen slots, .done) := by
  rw [skipByte, x_eq, register_widen, ok_bind, lowByte_eq, skipIf_widen]
  rfl

theorem assign_widen :
    (m.widen slots).assign w =
      .ok ((m.setRegister w.x w.lowByte).widen slots, .done) := by
  rw [assign, x_eq, lowByte_eq, setRegister_widen, ok_bind]
  rfl

theorem increase_widen :
    (m.widen slots).increase w =
      .ok ((m.setRegister w.x (m.v w.x + w.lowByte)).widen slots, .done) := by
  rw [increase, x_eq, register_widen, ok_bind, lowByte_eq,
    setRegister_widen, ok_bind]
  rfl

theorem putCombined_widen (operation : Arithmetic) :
    (m.widen slots).putCombined operation (m.v w.x) (m.v w.y) w =
      .ok ((m.combine operation w.x w.y).widen slots, .done) := by
  rw [putCombined, x_eq, setRegister_widen, ok_bind, Machine.combine]
  cases operation.flag? (m.v w.x) (m.v w.y) with
  | none =>
      rfl
  | some flag =>
      have put :=
        setRegister_widen
          (m.setRegister w.x (operation.result (m.v w.x) (m.v w.y)))
          slots Registers.flag (Arithmetic.flagByte flag)
      change (WideMachine.setRegister _ Registers.flag.toNat _ >>= _) = _
      rw [put, ok_bind]
      rfl

theorem setIndex_widen :
    (m.widen slots).setIndex w =
      .ok (Machine.widen { m with index := w.target } slots, .done) := by
  rw [setIndex, target_eq]
  rfl

theorem jumpFrom_widen :
    (m.widen slots).jumpFrom w =
      .ok (Machine.widen
        { m with pc := w.target + (m.v 0).toAddress } slots, .done) := by
  have content : (m.widen slots).register 0 = .ok (m.v 0) :=
    register_widen m slots 0
  have base := w.target.toNat_lt_size
  have distance := (m.v 0).isLt
  have fitting : w.target.toNat + (m.v 0).toNat < Nat.pow 2 16 :=
    Nat.lt_trans (show _ < 4352 by omega) (by decide)
  have sum :
      mask (BitVec.ofNat 16 (w.target.toNat + (m.v 0).toNat)) =
        (w.target + (m.v 0).toAddress).toWord := by
    rw [mask_eq, setWidth_ofNat, BitVec.ofNat_add, BitVec.ofNat_toNat,
      BitVec.ofNat_toNat, BitVec.setWidth_eq]
    rfl
  rw [jumpFrom, content, ok_bind, target_eq, Address.toNat_toWord,
    fits_eq fitting, ok_bind, sum]
  rfl

theorem randomByte_widen :
    (m.widen slots).randomByte w =
      .ok ((Machine.setRegister { m with random := m.random.next.2 } w.x
        (m.random.next.1 &&& w.lowByte)).widen slots, .done) := by
  have put :=
    setRegister_widen { m with random := m.random.next.2 } slots w.x
      (m.random.next.1 &&& w.lowByte)
  rw [randomByte, x_eq, lowByte_eq]
  change (WideMachine.setRegister (Machine.widen
    { m with random := m.random.next.2 } slots) w.x.toNat
      (m.random.next.1 &&& w.lowByte) >>= _) = _
  rw [put, ok_bind]
  rfl

theorem draw_widen :
    (m.widen slots).draw w =
      .ok ((m.draw w.x w.y w.lowNibble).widen slots, .done) := by
  have narrow := (m.v w.x).isLt
  have low := (m.v w.y).isLt
  have short : w.lowNibble.toNat ≤ 16 :=
    Nat.le_of_lt w.lowNibble.toNat_lt_sixteen
  have picture :=
    foldlM_drawRow m slots narrow low short
  have flagged :=
    setRegister_widen m slots Registers.flag
  rw [WideMachine.draw, x_eq, y_eq, lowNibble_eq, register_widen, ok_bind,
    register_widen, ok_bind]
  change (List.foldlM ((m.widen slots).drawRow (m.v w.x).toNat
    (m.v w.y).toNat) (false, m.screen.cells) _ >>= _) = _
  rw [picture, ok_bind]
  change ((m.widen slots).setRegister Registers.flag.toNat _ >>= _) = _
  rw [flagged, ok_bind]
  rfl

end WideMachine

end ChipEight

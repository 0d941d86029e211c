import ChipEight.Proofs.Wide.Basic

/-!
# Parts of the machine on wide numbers

`Machine.widen` writes a machine on wide numbers, whose free slots may hold
anything.  On such a state every access is in range and gives what the part of
the machine gives: fields of a word, bytes of memory, registers, pixels and
runs.
-/

namespace ChipEight

/-- A machine on wide numbers, with a given row of slots. -/
def Machine.widen (m : Machine) (slots : Vector Word 16) : WideMachine where
  settings := m.settings
  memory := m.memory.cells
  registers := m.registers.cells
  index := m.index.toWord
  pc := m.pc.toWord
  lastWord := m.lastWord
  pixels := m.screen.cells
  timers := m.timers
  slots := slots
  depth := BitVec.ofNat 16 m.stack.depth
  keys := m.keypad.held
  redraw := m.redraw
  random := m.random

namespace WideMachine

open Checked

/-! ## Checks that are passed -/

section Checks

variable {α β : Type} {n : Nat}

@[simp]
theorem ok_bind (a : α) (next : α → Except Breach β) :
    (Except.ok a >>= next) = next a := rfl

@[simp]
theorem pure_eq_ok (a : α) : (pure a : Except Breach α) = .ok a := rfl

theorem element_eq (items : Vector α n) {place : Nat} (inside : place < n) :
    element items place = .ok items[place] :=
  dif_pos inside

theorem replace_eq
    (items : Vector α n) {place : Nat} (item : α) (inside : place < n) :
    replace items place item = .ok (items.set place item inside) :=
  dif_pos inside

theorem fits_eq {width number : Nat} (small : number < Nat.pow 2 width) :
    fits width number = .ok (BitVec.ofNat width number) :=
  if_pos small

/-- A loop whose every step is known ends in the last of the known states. -/
theorem foldlM_range_eq
    {step : α → Nat → Except Breach α} (state : Nat → α) {count : Nat}
    (everyStep : ∀ k, k < count → step (state k) k = .ok (state (k + 1))) :
    (List.range count).foldlM step (state 0) = .ok (state count) := by
  induction count with
  | zero =>
      rfl
  | succ count inductionHypothesis =>
      have tillHere :
          (List.range count).foldlM step (state 0) = .ok (state count) := by
        apply inductionHypothesis
        intro k earlier
        exact everyStep k (Nat.lt_succ_of_lt earlier)
      have lastStep := everyStep count (Nat.lt_succ_self count)
      rw [List.range_succ, List.foldlM_append, tillHere]
      rw [ok_bind, List.foldlM_cons, lastStep]
      rfl

end Checks

/-! ## Fields of a word -/

theorem toNat_nibble
    (w nibbleMask : Word) (shift : Nat)
    (isMask : nibbleMask.toNat >>> shift = 15) :
    ((w &&& nibbleMask) >>> shift).toNat = (w.extractLsb' shift 4).toNat := by
  rw [BitVec.toNat_ushiftRight, BitVec.toNat_and, Nat.shiftRight_and_distrib,
    isMask, BitVec.extractLsb'_toNat]
  exact Nat.and_two_pow_sub_one_eq_mod _ 4

theorem family_eq (w : Word) : family w = w.family.toNat :=
  toNat_nibble w 0xF000 12 rfl

theorem x_eq (w : Word) : x w = w.x.toNat :=
  toNat_nibble w 0x0F00 8 rfl

theorem y_eq (w : Word) : y w = w.y.toNat :=
  toNat_nibble w 0x00F0 4 rfl

theorem lowNibble_eq (w : Word) : lowNibble w = w.lowNibble.toNat := by
  simpa [lowNibble, Word.lowNibble] using toNat_nibble w 0x000F 0 rfl

theorem lowByte_eq (w : Word) : lowByte w = w.lowByte := by
  apply BitVec.eq_of_toNat_eq
  rw [lowByte, Word.lowByte, BitVec.toNat_setWidth, BitVec.toNat_and,
    BitVec.extractLsb'_toNat, Nat.shiftRight_zero]
  have masked : w.toNat &&& 255 = w.toNat % 256 :=
    Nat.and_two_pow_sub_one_eq_mod _ 8
  change (w.toNat &&& 255) % 256 = w.toNat % 256
  omega

theorem toNat_keyMask (key : Byte) :
    (key &&& 0x0F).toNat = key.low.toNat := by
  rw [Byte.low, BitVec.toNat_and, BitVec.toNat_setWidth]
  exact Nat.and_two_pow_sub_one_eq_mod _ 4

/-! ## Addresses -/

theorem mask_eq (a : Word) : mask a = Address.toWord (a.setWidth 12) := by
  apply BitVec.eq_of_toNat_eq
  rw [mask, Address.toNat_toWord, BitVec.toNat_and, BitVec.toNat_setWidth]
  exact Nat.and_two_pow_sub_one_eq_mod _ 12

theorem target_eq (w : Word) : target w = w.target.toWord :=
  mask_eq w

@[simp]
theorem setWidth_toWord (a : Address) : a.toWord.setWidth 12 = a := by
  apply BitVec.eq_of_toNat_eq
  rw [BitVec.toNat_setWidth, Address.toNat_toWord]
  exact Nat.mod_eq_of_lt (Address.toNat_lt_size a)

/-- Masking after a sum of words is the sum of addresses. -/
@[simp]
theorem setWidth_toWord_add (a : Address) (b : Word) :
    (a.toWord + b).setWidth 12 = a + b.setWidth 12 := by
  rw [BitVec.setWidth_add _ _ (by decide), setWidth_toWord]

theorem mask_add_two (a : Address) : mask (a.toWord + 2) = (a + 2).toWord := by
  rw [mask_eq, setWidth_toWord_add]
  rfl

theorem mask_sub_two (a : Address) : mask (a.toWord - 2) = (a - 2).toWord := by
  rw [mask_eq, BitVec.sub_eq_add_neg, setWidth_toWord_add,
    BitVec.sub_eq_add_neg]
  rfl

theorem setWidth_ofNat (k : Nat) :
    (BitVec.ofNat 16 k).setWidth 12 = BitVec.ofNat 12 k :=
  BitVec.setWidth_ofNat_of_le (by decide) k

/-! ## Bytes and registers -/

variable (m : Machine) (slots : Vector Word 16)

theorem readByte_widen (a : Word) :
    (m.widen slots).readByte a = .ok (m.memory.read (a.setWidth 12)) := by
  have place : (mask a).toNat = (a.setWidth 12).toNat := by
    rw [mask_eq, Address.toNat_toWord]
  rw [readByte, place]
  exact element_eq _ (Address.toNat_lt_size (a.setWidth 12))

theorem writeByte_widen (a : Word) (b : Byte) :
    (m.widen slots).writeByte a b =
      .ok (Machine.widen
        { m with memory := m.memory.write (a.setWidth 12) b } slots) := by
  have place : (mask a).toNat = (a.setWidth 12).toNat := by
    rw [mask_eq, Address.toNat_toWord]
  rw [writeByte, place, replace_eq (m.widen slots).memory b
    (Address.toNat_lt_size (a.setWidth 12))]
  rfl

theorem register_widen (r : Nibble) :
    (m.widen slots).register r.toNat = .ok (m.v r) :=
  element_eq _ (Nibble.toNat_lt_sixteen r)

theorem setRegister_widen (r : Nibble) (b : Byte) :
    (m.widen slots).setRegister r.toNat b =
      .ok ((m.setRegister r b).widen slots) := by
  rw [setRegister, replace_eq (m.widen slots).registers b
    (Nibble.toNat_lt_sixteen r)]
  rfl

theorem skipIf_widen (condition : Bool) :
    (m.widen slots).skipIf condition = (m.skipIf condition).widen slots := by
  cases condition with
  | false =>
      rfl
  | true =>
      have next : mask ((m.widen slots).pc + 2) = (m.pc + 2).toWord :=
        mask_add_two m.pc
      simp only [skipIf, Machine.skipIf, if_true, next]
      rfl

/-! ## Runs of bytes -/

theorem register_widen_of_lt {k : Nat} (inside : k < 16) :
    (m.widen slots).register k = .ok (m.v (BitVec.ofNat 4 k)) := by
  have sameNumber : (BitVec.ofNat 4 k).toNat = k :=
    Nat.mod_eq_of_lt inside
  simpa only [sameNumber] using register_widen m slots (BitVec.ofNat 4 k)

/-- The address of one byte of a run from the index upwards. -/
theorem setWidth_index_add (k : Nat) :
    ((m.widen slots).index + BitVec.ofNat 16 k).setWidth 12 =
      m.index + BitVec.ofNat 12 k := by
  have wideSum := setWidth_toWord_add m.index (BitVec.ofNat 16 k)
  rwa [setWidth_ofNat] at wideSum

theorem take_registers_succ (registers : Registers) {count : Nat}
    (inside : count < 16) :
    registers.toList.take (count + 1) =
      registers.toList.take count ++
        [registers.get (BitVec.ofNat 4 count)] := by
  have sameNumber : (BitVec.ofNat 4 count).toNat = count :=
    Nat.mod_eq_of_lt inside
  have place : count < registers.toList.length := by
    simpa [Registers.toList] using inside
  rw [List.take_succ_eq_append_getElem place]
  simp [Registers.toList, Registers.get, sameNumber]

/-- A machine that has saved the first registers at the index. -/
def saved (count : Nat) : Machine :=
  { m with
    memory := m.memory.store m.index (m.registers.toList.take count) }

theorem saved_succ {k : Nat} (inside : k < 16) :
    saved m (k + 1) =
      { saved m k with
        memory :=
          (saved m k).memory.write ((saved m k).index + BitVec.ofNat 12 k)
            ((saved m k).v (BitVec.ofNat 4 k)) } := by
  have lengthTaken : (m.registers.toList.take k).length = k := by
    simp [Registers.toList, Nat.le_of_lt inside]
  rw [saved, saved, take_registers_succ m.registers inside,
    Memory.store_append, lengthTaken]
  rfl

theorem saveRegister_widen {k : Nat} (inside : k < 16) :
    (m.widen slots).saveRegister k =
      .ok (Machine.widen
        { m with
          memory := m.memory.write (m.index + BitVec.ofNat 12 k)
            (m.v (BitVec.ofNat 4 k)) } slots) := by
  have written :=
    writeByte_widen m slots ((m.widen slots).index + BitVec.ofNat 16 k)
      (m.v (BitVec.ofNat 4 k))
  rw [setWidth_index_add] at written
  rw [saveRegister, register_widen_of_lt m slots inside, ok_bind, written]

theorem saveRegisters_widen (count : Nat) (enough : count ≤ 16) :
    (m.widen slots).saveRegisters count =
      .ok ((saved m count).widen slots) := by
  apply foldlM_range_eq (fun k => (saved m k).widen slots)
  intro k earlier
  have inside : k < 16 := Nat.lt_of_lt_of_le earlier enough
  rw [saveRegister_widen (saved m k) slots inside, saved_succ m inside]

/-- A machine that has loaded the first registers from the index. -/
def loaded (count : Nat) : Machine :=
  { m with registers := m.registers.fill (m.memory.window m.index count) }

theorem loaded_zero : loaded m 0 = m := by
  have nothing : m.memory.window m.index 0 = [] := rfl
  rw [loaded, nothing, Registers.fill_nil]

theorem loaded_succ {k : Nat} (inside : k < 16) :
    loaded m (k + 1) =
      (loaded m k).setRegister (BitVec.ofNat 4 k)
        ((loaded m k).memory.read
          ((loaded m k).index + BitVec.ofNat 12 k)) := by
  have isNext :
      (m.memory.window m.index k).length = (BitVec.ofNat 4 k).toNat := by
    rw [Memory.length_window]
    exact (Nat.mod_eq_of_lt inside).symm
  rw [loaded, loaded, Memory.window_succ,
    Registers.fill_concat _ _ _ _ isNext]
  rfl

theorem loadRegister_widen {k : Nat} (inside : k < 16) :
    (m.widen slots).loadRegister k =
      .ok ((m.setRegister (BitVec.ofNat 4 k)
        (m.memory.read (m.index + BitVec.ofNat 12 k))).widen slots) := by
  have sameNumber : (BitVec.ofNat 4 k).toNat = k :=
    Nat.mod_eq_of_lt inside
  have put :=
    setRegister_widen m slots (BitVec.ofNat 4 k)
      (m.memory.read (m.index + BitVec.ofNat 12 k))
  rw [sameNumber] at put
  rw [loadRegister, readByte_widen, setWidth_index_add, ok_bind, put]

theorem loadRegisters_widen (count : Nat) (enough : count ≤ 16) :
    (m.widen slots).loadRegisters count =
      .ok ((loaded m count).widen slots) := by
  have looped :
      ((loaded m 0).widen slots).loadRegisters count =
        .ok ((loaded m count).widen slots) := by
    apply foldlM_range_eq (fun k => (loaded m k).widen slots)
    intro k earlier
    have inside : k < 16 := Nat.lt_of_lt_of_le earlier enough
    rw [loadRegister_widen (loaded m k) slots inside, loaded_succ m inside]
  rwa [loaded_zero] at looped

theorem storeDecimal_widen (b : Byte) :
    (m.widen slots).storeDecimal b =
      .ok (Machine.widen
        { m with
          memory := m.memory.store m.index (Machine.decimalDigits b) }
        slots) := by
  have second : (m.index.toWord + 1).setWidth 12 = m.index + 1 :=
    setWidth_toWord_add m.index 1
  have third : (m.index.toWord + 2).setWidth 12 = m.index + 1 + 1 := by
    rw [setWidth_toWord_add, BitVec.add_assoc]
    rfl
  have index : (m.widen slots).index = m.index.toWord := rfl
  rw [storeDecimal, writeByte_widen, index, setWidth_toWord, ok_bind,
    writeByte_widen, second, ok_bind, writeByte_widen, third]
  rfl

end WideMachine

end ChipEight

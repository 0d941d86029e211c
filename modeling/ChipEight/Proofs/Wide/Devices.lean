import ChipEight.Proofs.Wide.Widening

/-!
# Devices of the machine on wide numbers

Keys, timers, programs put into memory and sprites on the screen.  A sprite is
drawn bit by bit through checked sums, which come to the flips that the screen
makes for the list of its pixels.
-/

namespace ChipEight.WideMachine

open Checked

variable (m : Machine) (slots : Vector Word 16)

/-! ## Keys -/

theorem pressed_widen (key : Byte) :
    element (m.widen slots).keys (key &&& 0x0F).toNat =
      .ok (m.keypad.isPressed key.low) := by
  rw [toNat_keyMask, element_eq (m.widen slots).keys
    (Nibble.toNat_lt_sixteen key.low)]
  rfl

theorem setKey_widen (key : Byte) (pressed : Bool) :
    (m.widen slots).setKey key pressed =
      .ok ((m.setKey key pressed).widen slots) := by
  rw [setKey, toNat_keyMask, replace_eq (m.widen slots).keys pressed
    (Nibble.toNat_lt_sixteen key.low)]
  rfl

theorem findIdx?_held (keypad : Keypad) :
    keypad.held.toList.findIdx? id =
      (List.range 16).find? fun k => keypad.isPressed (BitVec.ofNat 4 k) := by
  have held (k : Nat) (inside : k < 16) :
      keypad.isPressed (BitVec.ofNat 4 k) = keypad.held[k] := by
    simp [Keypad.isPressed, Nat.mod_eq_of_lt inside]
  ext k
  rw [List.findIdx?_eq_some_iff_getElem, List.find?_range_eq_some]
  constructor
  · rintro ⟨inList, isHeld, noneBefore⟩
    have inside : k < 16 := by
      simpa using inList
    refine ⟨?_, List.mem_range.mpr inside, ?_⟩
    · rw [held k inside]
      simpa using isHeld
    · intro j before
      rw [held j (Nat.lt_trans before inside)]
      simpa using noneBefore j before
  · rintro ⟨isHeld, inRange, noneBefore⟩
    have inside : k < 16 := List.mem_range.mp inRange
    refine ⟨by simpa using inside, ?_, ?_⟩
    · rw [held k inside] at isHeld
      simpa using isHeld
    · intro j before
      have isFree := noneBefore j before
      rw [held j (Nat.lt_trans before inside)] at isFree
      simpa using isFree

theorem firstPressed_widen :
    (m.widen slots).firstPressed =
      m.keypad.firstPressed.map (fun key => key.setWidth 8) := by
  have place : (m.widen slots).keys = m.keypad.held := rfl
  have sameNumber :
      (fun key : Nibble => key.setWidth 8) ∘ BitVec.ofNat 4 =
        fun k => (BitVec.ofNat 4 k).setWidth 8 := rfl
  rw [firstPressed, place, findIdx?_held, Keypad.firstPressed, Keypad.keys,
    List.find?_map, Option.map_map, sameNumber]
  change
    Option.map _
        ((List.range 16).find? (m.keypad.isPressed ∘ BitVec.ofNat 4)) =
      Option.map _
        ((List.range 16).find? (m.keypad.isPressed ∘ BitVec.ofNat 4))
  apply Option.map_congr
  intro k found
  have inside : k < 16 :=
    List.mem_range.mp (List.mem_of_find?_eq_some found)
  apply BitVec.eq_of_toNat_eq
  simp
  omega

/-! ## Timers -/

theorem countDown_eq (b : Byte) : countDown b = .ok b.countDown := by
  rw [countDown, Byte.countDown]
  by_cases rests : b = 0
  · subst rests
    rfl
  · have runs : 0 < b := by
      rw [BitVec.lt_def]
      exact Nat.pos_of_ne_zero fun isZero =>
        rests (BitVec.eq_of_toNat_eq isZero)
    have one : 1 ≤ b := by
      rw [BitVec.le_def]
      exact runs
    rw [if_pos runs, if_neg rests, minus, if_pos one]

theorem tick_widen :
    (m.widen slots).tick = .ok (m.tick.widen slots) := by
  rw [tick, countDown_eq, ok_bind, countDown_eq, ok_bind]
  rfl

/-! ## Programs -/

theorem overlay_eq
    (memory : Memory) (start : Address) (bytes : List Byte)
    (fitting : start.toNat + bytes.length ≤ 4096) :
    overlay memory.cells start.toNat bytes =
      .ok (memory.store start bytes).cells := by
  have short : bytes.length ≤ 4096 := by
    omega
  rw [overlay, if_pos fitting]
  apply congrArg
  apply Vector.ext
  intro k inside
  rw [Vector.getElem_ofFn]
  have stored :=
    Memory.read_store memory start (BitVec.ofNat 12 k) bytes short
  have place : (BitVec.ofNat 12 k).toNat = k := Nat.mod_eq_of_lt inside
  have bounded := start.toNat_lt_size
  have there :
      (memory.store start bytes).read (BitVec.ofNat 12 k) =
        (memory.store start bytes).cells[k] := by
    simp [Memory.read, Nat.mod_eq_of_lt inside]
  have here :
      memory.read (BitVec.ofNat 12 k) = memory.cells[k] := by
    simp [Memory.read, Nat.mod_eq_of_lt inside]
  rw [← there, stored, here, BitVec.toNat_sub, place]
  have beyond := Nat.mod_lt (4096 - start.toNat + k) (show 0 < 4096 by decide)
  by_cases above : start.toNat ≤ k
  · have distance : (4096 - start.toNat + k) % 4096 = k - start.toNat := by
      omega
    rw [if_pos above]
    change _ = bytes[(4096 - start.toNat + k) % 4096]?.getD _
    rw [distance, List.getD_eq_getElem?_getD]
    rfl
  · have past : bytes.length ≤ (4096 - start.toNat + k) % 4096 := by
      omega
    rw [if_neg above]
    change _ = bytes[(4096 - start.toNat + k) % 4096]?.getD _
    rw [List.getElem?_eq_none past]
    rfl

/-! ## Pixels -/

theorem toNat_place (x y : Nat) :
    (BitVec.ofNat 64 (Screen.offset x y)).toNat = Screen.offset x y := by
  have bounded := Screen.offset_lt x y
  exact Nat.mod_eq_of_lt (Nat.lt_trans bounded (by decide))

/-- What goes on with the place of a pixel goes on: no sum on the way to it exceeds
sixty-four bits. -/
theorem bind_place
    {β : Type} (column line : BitVec 64)
    (rest : BitVec 64 → Except Breach β) :
    (fits 64 (64 * (line.toNat % 32)) >>= fun start =>
      fits 64 (start.toNat + column.toNat % 64) >>= rest) =
      rest (BitVec.ofNat 64 (Screen.offset column.toNat line.toNat)) := by
  have bounded := Screen.offset_lt column.toNat line.toNat
  have small : 64 * (line.toNat % 32) < Nat.pow 2 64 := by
    have inPicture := Nat.mod_lt line.toNat (show 0 < 32 by decide)
    exact Nat.lt_trans (show _ < 2048 by omega) (by decide)
  have start :
      (BitVec.ofNat 64 (64 * (line.toNat % 32))).toNat =
        64 * (line.toNat % 32) :=
    Nat.mod_eq_of_lt small
  have sum :
      64 * (line.toNat % 32) + column.toNat % 64 =
        Screen.offset column.toNat line.toNat := rfl
  have fitting : Screen.offset column.toNat line.toNat < Nat.pow 2 64 :=
    Nat.lt_trans bounded (by decide)
  rw [fits_eq small, ok_bind, start, sum, fits_eq fitting, ok_bind]

theorem flipPixel_cells (screen : Screen) (column line : BitVec 64) :
    flipPixel screen.cells column line =
      .ok ((screen.flip column.toNat line.toNat).1,
        (screen.flip column.toNat line.toNat).2.cells) := by
  have bounded := Screen.offset_lt column.toNat line.toNat
  rw [flipPixel, bind_place, toNat_place, element_eq screen.cells bounded,
    ok_bind, replace_eq screen.cells _ bounded, ok_bind]
  rfl

theorem shiftRight_eq {p : Nat} (inside : p < 8) :
    shiftRight 0x80 p = .ok (BitVec.twoPow 8 (7 - p)) := by
  have everyShift : ∀ k : Fin 8,
      (0x80 : Byte) >>> k.val = BitVec.twoPow 8 (7 - k.val) := by
    decide
  rw [shiftRight, if_pos inside, everyShift ⟨p, inside⟩]

theorem and_twoPow_eq_zero_iff (bits : Byte) {p : Nat} (inside : p < 8) :
    bits &&& BitVec.twoPow 8 (7 - p) = 0 ↔ bits.getMsbD p = false := by
  have sameBit : bits.getMsbD p = bits.getLsbD (7 - p) := by
    rw [BitVec.getMsbD, decide_eq_true inside, Bool.true_and]
  have nonzero : BitVec.twoPow 8 (7 - p) ≠ 0 := by
    have everyBit : ∀ k : Fin 8, BitVec.twoPow 8 (7 - k.val) ≠ 0 := by
      decide
    exact everyBit ⟨p, inside⟩
  rw [BitVec.and_twoPow, sameBit]
  cases bits.getLsbD (7 - p) with
  | false =>
      simp
  | true =>
      exact iff_of_false nonzero (by decide)

/-! ## Sprites -/

/-- What drawing has come to when the pixels of a list have been flipped. -/
def drawn (screen : Screen) (cells : List (Nat × Nat)) :
    Bool × Vector Bool 2048 :=
  ((screen.flipAll cells).1, (screen.flipAll cells).2.cells)

/-- The pixel under one bit of a row, if the bit is set. -/
def bitCells (x y : Nat) (bits : Byte) (p : Nat) : List (Nat × Nat) :=
  if bits.getMsbD p then [(x + p, y)] else []

/-- The pixels under the first bits of a row, as far as they are set. -/
def firstCells (x y : Nat) (bits : Byte) (count : Nat) : List (Nat × Nat) :=
  ((List.range count).filter fun p => bits.getMsbD p).map fun p => (x + p, y)

theorem firstCells_succ (x y : Nat) (bits : Byte) (count : Nat) :
    firstCells x y bits (count + 1) =
      firstCells x y bits count ++ bitCells x y bits count := by
  rw [firstCells, List.range_succ, List.filter_append, List.map_append,
    bitCells]
  cases isSet : bits.getMsbD count with
  | false =>
      simp [firstCells, isSet]
  | true =>
      simp [firstCells, isSet]

theorem drawBit_drawn
    (screen : Screen) (cells : List (Nat × Nat)) (bits : Byte)
    {left top row p : Nat} (inside : p < 8)
    (narrow : left < 256) (low : top < 256) (short : row < 16) :
    drawBit left top row bits (drawn screen cells) p =
      .ok (drawn screen (cells ++ bitCells left (top + row) bits p)) := by
  have columnFits : left + p < Nat.pow 2 64 :=
    Nat.lt_trans (show _ < 264 by omega) (by decide)
  have lineFits : top + row < Nat.pow 2 64 :=
    Nat.lt_trans (show _ < 272 by omega) (by decide)
  have column : (BitVec.ofNat 64 (left + p)).toNat = left + p :=
    Nat.mod_eq_of_lt columnFits
  have line : (BitVec.ofNat 64 (top + row)).toNat = top + row :=
    Nat.mod_eq_of_lt lineFits
  rw [drawBit, shiftRight_eq inside, ok_bind]
  cases isSet : bits.getMsbD p with
  | false =>
      have nothing : bits &&& BitVec.twoPow 8 (7 - p) = 0 :=
        (and_twoPow_eq_zero_iff bits inside).mpr isSet
      have noCells : bitCells left (top + row) bits p = [] := by
        rw [bitCells, isSet]
        rfl
      rw [if_pos nothing, noCells, List.append_nil]
      rfl
  | true =>
      have something : bits &&& BitVec.twoPow 8 (7 - p) ≠ 0 := by
        intro nothing
        have unset := (and_twoPow_eq_zero_iff bits inside).mp nothing
        exact Bool.false_ne_true (unset.symm.trans isSet)
      have oneCell :
          bitCells left (top + row) bits p = [(left + p, top + row)] := by
        rw [bitCells, isSet]
        rfl
      rw [if_neg something, oneCell, fits_eq columnFits, ok_bind,
        fits_eq lineFits, ok_bind, drawn, flipPixel_cells, column, line,
        ok_bind, drawn, Screen.flipAll_append]
      simp [Screen.flipAll]

theorem foldlM_drawBit
    (screen : Screen) (cells : List (Nat × Nat)) (bits : Byte)
    {left top row : Nat}
    (narrow : left < 256) (low : top < 256) (short : row < 16) :
    (List.range 8).foldlM (drawBit left top row bits) (drawn screen cells) =
      .ok (drawn screen (cells ++ Sprite.rowCells left (top + row) bits)) := by
  have looped :
      (List.range 8).foldlM (drawBit left top row bits)
          (drawn screen (cells ++ firstCells left (top + row) bits 0)) =
        .ok (drawn screen (cells ++ firstCells left (top + row) bits 8)) := by
    apply foldlM_range_eq (fun p =>
      drawn screen (cells ++ firstCells left (top + row) bits p))
    intro p inside
    rw [drawBit_drawn screen _ bits inside narrow low short,
      List.append_assoc, firstCells_succ]
  have noCells : firstCells left (top + row) bits 0 = [] := rfl
  rw [noCells, List.append_nil] at looped
  exact looped

theorem drawRow_drawn
    (cells : List (Nat × Nat)) {left top row : Nat}
    (narrow : left < 256) (low : top < 256) (short : row < 16) :
    (m.widen slots).drawRow left top (drawn m.screen cells) row =
      .ok (drawn m.screen (cells ++
        Sprite.rowCells left (top + row)
          (m.memory.read (m.index + BitVec.ofNat 12 row)))) := by
  rw [drawRow, readByte_widen, setWidth_index_add, ok_bind,
    foldlM_drawBit m.screen cells _ narrow low short]

theorem foldlM_drawRow
    {left top count : Nat}
    (narrow : left < 256) (low : top < 256) (short : count ≤ 16) :
    (List.range count).foldlM ((m.widen slots).drawRow left top)
        (false, m.screen.cells) =
      .ok (drawn m.screen
        (Sprite.cells left top (m.memory.window m.index count))) := by
  apply foldlM_range_eq (fun k =>
    drawn m.screen (Sprite.cells left top (m.memory.window m.index k)))
  intro k earlier
  have inside : k < 16 := Nat.lt_of_lt_of_le earlier short
  rw [drawRow_drawn m slots _ narrow low inside, Memory.window_succ,
    Sprite.cells_concat, Memory.length_window]

end ChipEight.WideMachine

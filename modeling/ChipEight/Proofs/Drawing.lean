import ChipEight.Proofs.Cycle
import ChipEight.Proofs.Torus

/-!
# Drawing a sprite

A sprite is at most fifteen rows high and eight pixels wide, so wrapped around
the edges of the screen it does not come to lie over itself.  Its flips are
therefore flips at distinct pixels, and drawing it excludes the picture of the
sprite from the picture on the screen.
-/

namespace ChipEight

namespace Sprite

open Screen

/-! ## The pixels of a sprite -/

theorem mem_rowCells (x y : Nat) (bits : Byte) (p : Nat × Nat) :
    p ∈ rowCells x y bits ↔
      ∃ c < 8, bits.getMsbD c = true ∧ p = (x + c, y) := by
  rw [rowCells, List.mem_map]
  constructor
  · rintro ⟨c, isSet, rfl⟩
    obtain ⟨inByte, bitSet⟩ := List.mem_filter.mp isSet
    exact ⟨c, List.mem_range.mp inByte, bitSet, rfl⟩
  · rintro ⟨c, inByte, bitSet, rfl⟩
    exact ⟨c, List.mem_filter.mpr ⟨List.mem_range.mpr inByte, bitSet⟩, rfl⟩

theorem mem_cells (x y : Nat) (rows : List Byte) (p : Nat × Nat) :
    p ∈ cells x y rows ↔
      ∃ k bits, rows[k]? = some bits ∧ p ∈ rowCells x (y + k) bits := by
  induction rows generalizing y with
  | nil =>
      simp [cells]
  | cons first rest inductionHypothesis =>
      rw [cells, List.mem_append, inductionHypothesis]
      constructor
      · rintro (inFirst | ⟨k, bits, isRow, inRow⟩)
        · exact ⟨0, first, rfl, inFirst⟩
        · refine ⟨k + 1, bits, isRow, ?_⟩
          rwa [Nat.add_right_comm] at inRow
      · rintro ⟨k, bits, isRow, inRow⟩
        cases k with
        | zero =>
            cases isRow
            exact Or.inl inRow
        | succ k =>
            refine Or.inr ⟨k, bits, isRow, ?_⟩
            rwa [Nat.add_right_comm]

/-- No two bits of a sprite lie over one pixel of the screen. -/
theorem nodup_wrap_cells
    (x y : Nat) {rows : List Byte} (short : rows.length ≤ 32) :
    ((cells x y rows).map wrap).Nodup := by
  induction rows generalizing y with
  | nil =>
      exact List.nodup_nil
  | cons first rest inductionHypothesis =>
      rw [List.length_cons] at short
      rw [cells, List.map_append, List.nodup_append]
      refine ⟨?_, inductionHypothesis (y + 1) (by omega), ?_⟩
      · rw [rowCells, List.map_map]
        apply (List.nodup_range.filter _).map_on
        intro c inRow d inRow' same
        have left := List.mem_range.mp (List.mem_filter.mp inRow).1
        have right := List.mem_range.mp (List.mem_filter.mp inRow').1
        have sameColumn : (x + c) % 64 = (x + d) % 64 :=
          (Prod.mk.inj same).1
        omega
      -- A lower row wraps to the line of the first only 32 lines further down.
      · intro p inFirst q inRest same
        obtain ⟨u, inRow, rfl⟩ := List.mem_map.mp inFirst
        obtain ⟨v, inRows, rfl⟩ := List.mem_map.mp inRest
        obtain ⟨c, _, _, rfl⟩ := (mem_rowCells _ _ _ _).mp inRow
        obtain ⟨k, bits, isRow, inLower⟩ := (mem_cells _ _ _ _).mp inRows
        obtain ⟨d, _, _, rfl⟩ := (mem_rowCells _ _ _ _).mp inLower
        have bounded : k < rest.length :=
          (List.getElem?_eq_some_iff.mp isRow).1
        have sameLine : y % 32 = (y + 1 + k) % 32 := (Prod.mk.inj same).2
        omega

/-- The pixels that a sprite covers, told by the distance from its top left. -/
theorem wrap_mem_map_cells_iff
    (x y : Nat) {rows : List Byte} (short : rows.length ≤ 32) (a b : Nat) :
    wrap (a, b) ∈ (cells x y rows).map wrap ↔
      ∃ bits,
        rows[(((b : Int) - y) % 32).toNat]? = some bits ∧
          bits.getMsbD (((a : Int) - x) % 64).toNat = true := by
  constructor
  · intro covered
    obtain ⟨p, isCell, same⟩ := List.mem_map.mp covered
    obtain ⟨k, bits, isRow, inRow⟩ := (mem_cells _ _ _ _).mp isCell
    obtain ⟨c, inByte, isSet, rfl⟩ := (mem_rowCells _ _ _ _).mp inRow
    obtain ⟨sameColumn, sameLine⟩ := Prod.mk.inj same
    have bounded : k < rows.length :=
      (List.getElem?_eq_some_iff.mp isRow).1
    have line : (((b : Int) - y) % 32).toNat = k := by omega
    have column : (((a : Int) - x) % 64).toNat = c := by omega
    exact ⟨bits, by rw [line, isRow], by rw [column, isSet]⟩
  · rintro ⟨bits, isRow, isSet⟩
    have inByte : (((a : Int) - x) % 64).toNat < 8 :=
      BitVec.lt_of_getMsbD isSet
    refine List.mem_map.mpr
      ⟨(x + (((a : Int) - x) % 64).toNat,
        y + (((b : Int) - y) % 32).toNat), ?_, ?_⟩
    · exact (mem_cells _ _ _ _).mpr
        ⟨_, bits, isRow, (mem_rowCells _ _ _ _).mpr
          ⟨_, inByte, isSet, rfl⟩⟩
    · apply Prod.ext
      · change (x + (((a : Int) - x) % 64).toNat) % 64 = a % 64
        omega
      · change (y + (((b : Int) - y) % 32).toNat) % 32 = b % 32
        omega

theorem length_rowCells (x y : Nat) (bits : Byte) :
    (rowCells x y bits).length = bits.cpop.toNat := by
  have everyByte : ∀ b : Byte,
      (List.range 8).countP (fun c => b.getMsbD c) = b.cpop.toNat := by
    decide +kernel
  rw [rowCells, List.length_map, ← List.countP_eq_length_filter, everyByte]

theorem length_cells (x y : Nat) (rows : List Byte) :
    (cells x y rows).length = (rows.map fun b => b.cpop.toNat).sum := by
  induction rows generalizing y with
  | nil =>
      rfl
  | cons first rest inductionHypothesis =>
      rw [cells, List.length_append, length_rowCells, inductionHypothesis,
        List.map_cons, List.sum_cons]

end Sprite

namespace Machine

/-! ## The cycle of a drawing word -/

/-- Whether the sprite that the word at the counter draws has a set bit over the
pixel `(a, b)`. -/
def spriteBit (m : Machine) (a b : Nat) : Bool :=
  let left := (m.v m.nextWord.x).toNat
  let top := (m.v m.nextWord.y).toNat
  let row := (((b : Int) - top) % 32).toNat
  let column := (((a : Int) - left) % 64).toNat
  decide (row < m.nextWord.lowNibble.toNat) && decide (column < 8) &&
    (m.memory.read (m.index + BitVec.ofNat 12 row)).getLsbD (7 - column)

def spriteRows (m : Machine) : List Byte :=
  m.memory.window m.index m.nextWord.lowNibble.toNat

def spriteCells (m : Machine) : List (Nat × Nat) :=
  Sprite.cells (m.v m.nextWord.x).toNat (m.v m.nextWord.y).toNat m.spriteRows

theorem length_spriteRows_le (m : Machine) : m.spriteRows.length ≤ 32 := by
  have nibble := m.nextWord.lowNibble.toNat_lt_sixteen
  rw [spriteRows, Memory.length_window]
  omega

theorem nodup_spriteCells (m : Machine) :
    (m.spriteCells.map Screen.wrap).Nodup :=
  Sprite.nodup_wrap_cells _ _ m.length_spriteRows_le

theorem wrap_mem_spriteCells_iff (m : Machine) (a b : Nat) :
    Screen.wrap (a, b) ∈ m.spriteCells.map Screen.wrap ↔
      m.spriteBit a b = true := by
  rw [spriteCells, Sprite.wrap_mem_map_cells_iff _ _ m.length_spriteRows_le]
  simp only [spriteRows, Memory.getElem?_window]
  simp [spriteBit, BitVec.getMsbD, and_assoc]

theorem any_lit_spriteCells_iff (m : Machine) :
    (m.spriteCells.any fun p => m.screen.pixel p.1 p.2) = true ↔
      ∃ p ∈ Screen.positions,
        m.screen.pixel p.1 p.2 = true ∧ m.spriteBit p.1 p.2 = true := by
  rw [List.any_eq_true]
  constructor
  · rintro ⟨p, isCell, isLit⟩
    have named : Screen.wrap (Screen.wrap p) = Screen.wrap p :=
      Screen.wrap_eq_self (Screen.wrap_mem_positions p)
    refine ⟨_, Screen.wrap_mem_positions p, ?_, ?_⟩
    · rw [m.screen.pixel_eq_of_wrap_eq named, isLit]
    · rw [← wrap_mem_spriteCells_iff, Prod.mk.eta, named]
      exact List.mem_map_of_mem isCell
  · rintro ⟨q, _, isLit, isSet⟩
    obtain ⟨p, isCell, same⟩ :=
      List.mem_map.mp ((m.wrap_mem_spriteCells_iff q.1 q.2).mpr isSet)
    exact ⟨p, isCell, by rw [m.screen.pixel_eq_of_wrap_eq same, isLit]⟩

theorem advance_of_draw {m : Machine} (isDraw : m.nextWord.family = 0xD) :
    m.advance =
      { machine :=
          { m.fetch with
            screen := (m.screen.flipAll m.spriteCells).2
            registers := m.registers.set Registers.flag
              (Arithmetic.flagByte (m.screen.flipAll m.spriteCells).1)
            redraw := true } } := by
  have asks :
      m.nextWord.AsksFor
        (.draw m.nextWord.x m.nextWord.y m.nextWord.lowNibble) :=
    ⟨isDraw, rfl, rfl, rfl⟩
  exact advance_of_asksFor asks rfl

/-- The cycle of a drawing word excludes the sprite, wrapped around the edges,
from the picture on the screen.  The flag tells whether a pixel of the sprite was
lit before, also if the flag register gave the place of the sprite, and each such
pixel is missing twice among the lit ones.  Nothing else is changed. -/
theorem sprite_excluded_on_torus
    {m : Machine} (isDraw : m.nextWord.family = 0xD) :
    let drawn := m.cycle.machine
    let collided := Screen.positions.countP fun p =>
      m.screen.pixel p.1 p.2 && m.spriteBit p.1 p.2
    m.cycle.reply = .done ∧
      (∀ a < 64, ∀ b < 32,
        drawn.screen.pixel a b = (m.screen.pixel a b ^^ m.spriteBit a b)) ∧
      drawn.v Registers.flag =
        (if ∃ p ∈ Screen.positions,
            m.screen.pixel p.1 p.2 = true ∧ m.spriteBit p.1 p.2 = true
          then 1 else 0) ∧
      (drawn.screen.litCount : Int) =
        m.screen.litCount + (m.spriteRows.map fun b => b.cpop.toNat).sum -
          2 * collided ∧
      drawn =
        { m with
          lastWord := m.nextWord
          pc := m.pc + 2
          screen := drawn.screen
          registers :=
            m.registers.set Registers.flag (drawn.v Registers.flag)
          redraw := true } := by
  intro drawn collided
  have distinct := m.nodup_spriteCells
  have outcome := advance_of_draw isDraw
  have picture : drawn.screen = (m.screen.flipAll m.spriteCells).2 :=
    congrArg (fun outcome => outcome.machine.screen) outcome
  have flag :
      drawn.v Registers.flag =
        Arithmetic.flagByte (m.screen.flipAll m.spriteCells).1 := by
    have registers := congrArg (fun outcome => outcome.machine.registers) outcome
    change drawn.registers = _ at registers
    rw [v, registers, Registers.get_set, if_pos rfl]
  have bit : ∀ a b,
      decide (Screen.wrap (a, b) ∈ m.spriteCells.map Screen.wrap) =
        m.spriteBit a b := by
    intro a b
    rw [Bool.eq_iff_iff, decide_eq_true_iff, wrap_mem_spriteCells_iff]
  refine ⟨congrArg Outcome.reply outcome, ?_, ?_, ?_, ?_⟩
  · intro a _ b _
    rw [picture, Screen.pixel_flipAll_of_nodup _ distinct, bit]
  · rw [flag, Screen.flipAll_fst_of_nodup _ distinct, Arithmetic.flagByte]
    simp only [any_lit_spriteCells_iff]
  · have counted :=
      Screen.litCount_flipAll_of_nodup m.screen distinct
    have sameCollided :
        (Screen.positions.countP fun p =>
          m.screen.pixel p.1 p.2 &&
            decide (p ∈ m.spriteCells.map Screen.wrap)) = collided := by
      apply List.countP_congr
      intro p inside
      rw [← bit, Prod.mk.eta, Screen.wrap_eq_self inside]
    rw [sameCollided, spriteCells, Sprite.length_cells, ← spriteCells,
      ← picture] at counted
    omega
  · rw [flag, picture]
    exact congrArg Outcome.machine outcome

/-- A machine about to draw the three upper rows of a zero over the corner of the
screen, at a place that the flag register gives. -/
def overCorner : Machine :=
  { powerOn {} (Vector.replicate 8 0) with
    memory := (Memory.zero.store programStart [0xDF, 0xF3]).store 0
      [0xF0, 0x90, 0x90]
    registers := Registers.zero.set Registers.flag 62
    screen := (Screen.dark.flip 1 31).2 }

theorem overCorner_drawn :
    overCorner.v Registers.flag = 62 ∧
      overCorner.screen.pixel 1 31 = true ∧
      overCorner.cycle.machine.screen.pixel 1 31 = false ∧
      overCorner.cycle.machine.screen.pixel 62 0 = true ∧
      overCorner.cycle.machine.v Registers.flag = 1 := by
  have isDraw : overCorner.nextWord.family = 0xD := by
    decide +kernel
  have wasLit : overCorner.screen.pixel 1 31 = true := by
    decide +kernel
  have isSet : overCorner.spriteBit 1 31 = true := by
    decide +kernel
  obtain ⟨_, picture, flag, _, _⟩ := sprite_excluded_on_torus isDraw
  refine ⟨by decide +kernel, wasLit, ?_, ?_, ?_⟩
  · rw [picture 1 (by decide) 31 (by decide), wasLit, isSet]
    rfl
  · rw [picture 62 (by decide) 0 (by decide)]
    decide +kernel
  · rw [flag, if_pos ⟨(1, 31), (Screen.mem_positions _).mpr (by decide),
      wasLit, isSet⟩]

end Machine

end ChipEight

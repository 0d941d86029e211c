/-!
# Bytes, words and addresses

The machine's numbers by width.  Arithmetic on each of them wraps around at its
own width, so a twelve-bit address never leaves the memory.
-/

namespace ChipEight

/-- A byte of memory or the content of a register. -/
abbrev Byte := BitVec 8

/-- A fetched instruction word. -/
abbrev Word := BitVec 16

/-- A place in the memory of 4096 bytes. -/
abbrev Address := BitVec 12

/-- Half a byte: the number of a register or key, or a sprite's height. -/
abbrev Nibble := BitVec 4

theorem Nibble.toNat_lt_sixteen (n : Nibble) : n.toNat < 16 := n.isLt

namespace Byte

def low (b : Byte) : Nibble := b.setWidth 4

/-- The address with the same number as a byte. -/
def toAddress (b : Byte) : Address := b.setWidth 12

end Byte

namespace Address

theorem toNat_lt_size (a : Address) : a.toNat < 4096 := a.isLt

/-- The sixteen-bit word with the same number as an address. -/
def toWord (a : Address) : Word := a.setWidth 16

@[simp] theorem toNat_toWord (a : Address) : a.toWord.toNat = a.toNat := by
  have := a.isLt
  simp [toWord]
  omega

/-- The place at a distance from another, the way round from the last address to
the first. -/
theorem toNat_sub_eq_iff (a start : Address) {n : Nat} (small : n < 4096) :
    (a - start).toNat = n ↔ a = start + BitVec.ofNat 12 n := by
  constructor
  · rintro rfl
    rw [BitVec.ofNat_toNat, BitVec.setWidth_eq, BitVec.add_comm,
      BitVec.sub_add_cancel]
  · rintro rfl
    rw [BitVec.add_comm, BitVec.add_sub_cancel, BitVec.toNat_ofNat,
      Nat.mod_eq_of_lt small]

end Address

namespace Word

/-! ## The fields of an instruction word -/

/-- The top four bits, which tell the family of the instruction. -/
def family (w : Word) : Nibble := w.extractLsb' 12 4

/-- The second four bits: the first register. -/
def x (w : Word) : Nibble := w.extractLsb' 8 4

/-- The third four bits: the second register. -/
def y (w : Word) : Nibble := w.extractLsb' 4 4

def lowNibble (w : Word) : Nibble := w.extractLsb' 0 4

def lowByte (w : Word) : Byte := w.extractLsb' 0 8

def target (w : Word) : Address := w.extractLsb' 0 12

/-- The word with a given high and low byte. -/
def ofBytes (high low : Byte) : Word := high ++ low

end Word

end ChipEight

import ChipEight.Word

/-!
# The font

The sprites of the sixteen hexadecimal digits, five rows each, in ascending
order.  They stand at the bottom of the memory.
-/

namespace ChipEight.Font

def glyphHeight : Nat := 5

/-- The rows of all sixteen digits. -/
def bytes : List Byte :=
  [0xF0, 0x90, 0x90, 0x90, 0xF0,
    0x20, 0x60, 0x20, 0x20, 0x70,
    0xF0, 0x10, 0xF0, 0x80, 0xF0,
    0xF0, 0x10, 0xF0, 0x10, 0xF0,
    0x90, 0x90, 0xF0, 0x10, 0x10,
    0xF0, 0x80, 0xF0, 0x10, 0xF0,
    0xF0, 0x80, 0xF0, 0x90, 0xF0,
    0xF0, 0x10, 0x20, 0x40, 0x40,
    0xF0, 0x90, 0xF0, 0x90, 0xF0,
    0xF0, 0x90, 0xF0, 0x10, 0xF0,
    0xF0, 0x90, 0xF0, 0x90, 0x90,
    0xE0, 0x90, 0xE0, 0x90, 0xE0,
    0xF0, 0x80, 0x80, 0x80, 0xF0,
    0xE0, 0x90, 0x90, 0x90, 0xE0,
    0xF0, 0x80, 0xF0, 0x80, 0xF0,
    0xF0, 0x80, 0xF0, 0x80, 0x80]

theorem length_bytes : bytes.length = 16 * glyphHeight := rfl

/-- The address of the sprite of a digit, five bytes after the one before.  A
register may hold more than a digit; the product is still an address. -/
def glyphAddress (digit : Byte) : Address := 5 * digit.toAddress

theorem toNat_glyphAddress (digit : Byte) :
    (glyphAddress digit).toNat = glyphHeight * digit.toNat := by
  have := digit.isLt
  simp [glyphAddress, glyphHeight, Byte.toAddress]
  omega

end ChipEight.Font

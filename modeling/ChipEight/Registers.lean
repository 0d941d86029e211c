import ChipEight.Word

/-!
# Registers

Sixteen byte registers.  The last of them also holds the flag that arithmetic
and drawing leave behind.
-/

namespace ChipEight

structure Registers where
  cells : Vector Byte 16
deriving DecidableEq, Repr

namespace Registers

/-- The register that receives flags. -/
def flag : Nibble := 15

def zero : Registers := ⟨Vector.replicate 16 0⟩

def get (registers : Registers) (r : Nibble) : Byte :=
  have bounded := r.toNat_lt_sixteen
  registers.cells[r.toNat]

def set (registers : Registers) (r : Nibble) (b : Byte) : Registers :=
  ⟨registers.cells.set r.toNat b r.toNat_lt_sixteen⟩

/-- The contents from the first register up to and including `last`. -/
def upTo (registers : Registers) (last : Nibble) : List Byte :=
  registers.cells.toList.take (last.toNat + 1)

/-- Put bytes into the registers from the first one on; the others stay. -/
def fill (registers : Registers) (bytes : List Byte) : Registers :=
  ⟨Vector.ofFn fun k =>
    bytes.getD k.val (registers.get (BitVec.ofNat 4 k.val))⟩

def toList (registers : Registers) : List Byte := registers.cells.toList

/-! ## Reading a register back -/

@[simp] theorem get_zero (r : Nibble) : zero.get r = 0 := by
  simp [zero, get]

theorem get_set (registers : Registers) (r query : Nibble) (b : Byte) :
    (registers.set r b).get query =
      if r = query then b else registers.get query := by
  simp only [set, get, Vector.getElem_set]
  by_cases h : r = query
  · simp [h]
  · have hne : ¬r.toNat = query.toNat :=
      fun heq => h (BitVec.eq_of_toNat_eq heq)
    simp [h, hne]

theorem get_fill (registers : Registers) (bytes : List Byte) (r : Nibble) :
    (registers.fill bytes).get r = bytes.getD r.toNat (registers.get r) := by
  simp [fill, get]

theorem get_fill_of_length_le
    (registers : Registers) {bytes : List Byte} {r : Nibble}
    (beyond : bytes.length ≤ r.toNat) :
    (registers.fill bytes).get r = registers.get r := by
  rw [get_fill, List.getD, List.getElem?_eq_none beyond, Option.getD_none]

@[simp] theorem length_upTo (registers : Registers) (last : Nibble) :
    (registers.upTo last).length = last.toNat + 1 := by
  have bounded := last.toNat_lt_sixteen
  simp [upTo]
  omega

theorem getElem?_upTo_eq_some_iff
    (registers : Registers) (last : Nibble) (n : Nat) (b : Byte) :
    (registers.upTo last)[n]? = some b ↔
      n ≤ last.toNat ∧ b = registers.get (BitVec.ofNat 4 n) := by
  have bounded := last.toNat_lt_sixteen
  rw [upTo, List.getElem?_take]
  by_cases inside : n ≤ last.toNat
  · have small : n < 16 := by omega
    simp [inside, small, get, Nat.lt_succ_of_le inside,
      Nat.mod_eq_of_lt small, eq_comm]
  · have outside : ¬ n < last.toNat + 1 := by omega
    simp [inside, outside]

@[ext] theorem ext {left right : Registers}
    (h : ∀ r, left.get r = right.get r) : left = right := by
  obtain ⟨l⟩ := left
  obtain ⟨r⟩ := right
  congr
  apply Vector.ext
  intro k hk
  have hsame := h (BitVec.ofNat 4 k)
  simpa [get, Nat.mod_eq_of_lt hk] using hsame

theorem fill_nil (registers : Registers) : registers.fill [] = registers := by
  ext r
  simp [get_fill]

/-- Bytes fill the registers one after the other. -/
theorem fill_concat
    (registers : Registers) (bytes : List Byte) (r : Nibble) (b : Byte)
    (isNext : bytes.length = r.toNat) :
    registers.fill (bytes ++ [b]) = (registers.fill bytes).set r b := by
  ext query
  rw [get_set, get_fill, get_fill]
  by_cases sameRegister : r = query
  · subst sameRegister
    rw [if_pos rfl, ← isNext]
    simp
  · rw [if_neg sameRegister]
    have otherPlace : query.toNat ≠ bytes.length := by
      intro samePlace
      exact sameRegister
        (BitVec.eq_of_toNat_eq (isNext.symm.trans samePlace.symm))
    rcases Nat.lt_or_gt_of_ne otherPlace with earlier | later
    · simp [List.getD, List.getElem?_append_left earlier]
    · have beyond : (bytes ++ [b]).length ≤ query.toNat := by
        simp
        omega
      simp [List.getD, List.getElem?_eq_none beyond,
        List.getElem?_eq_none (Nat.le_of_lt later)]

end Registers

end ChipEight

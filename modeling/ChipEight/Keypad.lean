import ChipEight.Word

/-!
# The keypad

Sixteen keys, each held down or not.
-/

namespace ChipEight

/-- Which keys are held down. -/
structure Keypad where
  held : Vector Bool 16
deriving DecidableEq, Repr

namespace Keypad

def size : Nat := 16

/-- All keys in ascending order. -/
def keys : List Nibble := (List.range size).map (BitVec.ofNat 4)

def released : Keypad := ⟨Vector.replicate 16 false⟩

def isPressed (keypad : Keypad) (key : Nibble) : Bool :=
  have bounded := key.toNat_lt_sixteen
  keypad.held[key.toNat]

def set (keypad : Keypad) (key : Nibble) (pressed : Bool) : Keypad :=
  ⟨keypad.held.set key.toNat pressed key.toNat_lt_sixteen⟩

/-- The keys held down, in ascending order. -/
def pressedKeys (keypad : Keypad) : List Nibble :=
  keys.filter keypad.isPressed

def firstPressed (keypad : Keypad) : Option Nibble :=
  keys.find? keypad.isPressed

/-! ## Reading a key back -/

@[simp] theorem isPressed_released (key : Nibble) :
    released.isPressed key = false := by
  simp [released, isPressed]

theorem isPressed_set (keypad : Keypad) (key query : Nibble)
    (pressed : Bool) :
    (keypad.set key pressed).isPressed query =
      if key = query then pressed else keypad.isPressed query := by
  simp only [set, isPressed, Vector.getElem_set]
  by_cases h : key = query
  · simp [h]
  · have hne : ¬key.toNat = query.toNat :=
      fun heq => h (BitVec.eq_of_toNat_eq heq)
    simp [h, hne]

theorem mem_keys (key : Nibble) : key ∈ keys := by
  refine List.mem_map.2 ⟨key.toNat, List.mem_range.2 key.isLt, ?_⟩
  simp

/-! ## The lowest key -/

theorem firstPressed_eq_none_iff (keypad : Keypad) :
    keypad.firstPressed = none ↔
      ∀ key, keypad.isPressed key = false := by
  simp only [firstPressed, List.find?_eq_none, mem_keys, true_implies,
    Bool.not_eq_true]

theorem firstPressed_eq_some_iff (keypad : Keypad) (key : Nibble) :
    keypad.firstPressed = some key ↔
      keypad.isPressed key = true ∧
        ∀ lower, lower < key → keypad.isPressed lower = false := by
  rw [firstPressed, keys, List.find?_map, Option.map_eq_some_iff]
  simp only [List.find?_range_eq_some, List.mem_range, Function.comp_apply,
    Bool.not_eq_true']
  constructor
  · rintro ⟨number, ⟨pressed, inRange, noneLower⟩, rfl⟩
    refine ⟨pressed, ?_⟩
    intro lower isLower
    have small : number < 16 := inRange
    have below : lower.toNat < number := by
      simpa [BitVec.lt_def, Nat.mod_eq_of_lt small] using isLower
    simpa using noneLower _ below
  · rintro ⟨pressed, noneLower⟩
    refine ⟨key.toNat, ⟨by simpa using pressed, key.isLt, ?_⟩, by simp⟩
    intro number below
    have small : number < 16 := Nat.lt_trans below key.isLt
    apply noneLower
    simpa [BitVec.lt_def, Nat.mod_eq_of_lt small] using below

/-- If any key is held down, one of them is the lowest. -/
theorem exists_lowest
    (keypad : Keypad) {key : Nibble}
    (isHeld : keypad.isPressed key = true) :
    ∃ lowest, keypad.isPressed lowest = true ∧
      ∀ lower, lower < lowest → keypad.isPressed lower = false := by
  cases first : keypad.firstPressed with
  | none =>
      rw [keypad.firstPressed_eq_none_iff.mp first key] at isHeld
      cases isHeld
  | some lowest =>
      exact ⟨lowest, (keypad.firstPressed_eq_some_iff lowest).mp first⟩

end Keypad

end ChipEight

import ChipEight.Word

/-!
# The timers

Two bytes that count down to zero, once per tick.  A sound is heard while the
second of them has not reached zero.
-/

namespace ChipEight

/-- One step of a countdown, which rests at zero. -/
def Byte.countDown (b : Byte) : Byte := if b = 0 then 0 else b - 1

theorem Byte.toNat_countDown (b : Byte) :
    b.countDown.toNat = b.toNat - 1 := by
  unfold countDown
  split
  · rename_i hzero
    simp [hzero]
  · rename_i hpositive
    have hone : (1 : Byte) ≤ b := by
      have hne : b.toNat ≠ 0 := fun h => hpositive (BitVec.eq_of_toNat_eq h)
      show (1 : Byte).toNat ≤ b.toNat
      simp
      omega
    simpa using BitVec.toNat_sub_of_le hone

structure Timers where
  delay : Byte := 0
  sound : Byte := 0
deriving DecidableEq, Repr

namespace Timers

def stopped : Timers := {}

def tick (timers : Timers) : Timers :=
  ⟨timers.delay.countDown, timers.sound.countDown⟩

def sounding (timers : Timers) : Bool := timers.sound != 0

end Timers

end ChipEight

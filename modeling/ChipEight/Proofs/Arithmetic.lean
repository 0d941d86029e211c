import ChipEight.Proofs.Destinations

/-!
# Arithmetic with a flag

A byte and a flag together hold what one byte cannot: the carry of a sum, the
borrow of a difference, the bit that a shift loses.  So the operands, the result
and the flag balance as numbers, and there is only one result and one flag that do.
The flag is written last, so it is what the flag register holds in the end even if
it was an operand or is the destination.
-/

namespace ChipEight

namespace Arithmetic

/-! ## Balances -/

/-- A result and a flag account for what an operation does to its operands.  The
operations that leave no flag have nothing to balance. -/
def Balances (operation : Arithmetic) (a b result flag : Int) : Prop :=
  match operation with
  | add => result + 256 * flag = a + b
  | subtract => result - a + b = 256 * (1 - flag)
  | shiftRight => 2 * result + flag = a
  | subtractFrom => result - b + a = 256 * (1 - flag)
  | shiftLeft => result + 256 * flag = 2 * a
  | copy | or | and | xor => False

theorem toNat_flagByte (flag : Bool) :
    (flagByte flag).toNat = flag.toNat := by
  cases flag <;> rfl

theorem toNat_decide (p : Prop) [Decidable p] :
    (decide p).toNat = if p then 1 else 0 := by
  by_cases holds : p <;> simp [holds]

/-- The flag that an operation leaves balances its operands with its result. -/
theorem balances_of_flag
    {operation : Arithmetic} {a b : Byte} {flag : Bool}
    (leaves : operation.flag? a b = some flag) :
    operation.Balances a.toNat b.toNat (operation.result a b).toNat
      flag.toNat := by
  have left := a.isLt
  have right := b.isLt
  cases operation with
  | copy | or | and | xor =>
      cases leaves
  | add =>
      cases leaves
      have sum : (a + b).toNat = (a.toNat + b.toNat) % 256 :=
        BitVec.toNat_add a b
      rw [Balances, result, sum, toNat_decide]
      split <;> omega
  | subtract =>
      cases leaves
      have difference : (a - b).toNat = (256 - b.toNat + a.toNat) % 256 :=
        BitVec.toNat_sub a b
      simp only [Balances, result, difference, toNat_decide, BitVec.le_def]
      split <;> omega
  | shiftRight =>
      cases leaves
      have half : (a >>> 1).toNat = a.toNat / 2 := by
        rw [BitVec.toNat_ushiftRight, Nat.shiftRight_one]
      have lost : a.getLsbD 0 = decide (a.toNat % 2 = 1) :=
        Nat.testBit_zero a.toNat
      rw [Balances, result, half, lost, toNat_decide]
      split <;> omega
  | subtractFrom =>
      cases leaves
      have difference : (b - a).toNat = (256 - a.toNat + b.toNat) % 256 :=
        BitVec.toNat_sub b a
      simp only [Balances, result, difference, toNat_decide, BitVec.le_def]
      split <;> omega
  | shiftLeft =>
      cases leaves
      have double : (a <<< 1).toNat = 2 * a.toNat % 256 := by
        rw [BitVec.toNat_shiftLeft, Nat.shiftLeft_eq, Nat.mul_comm]
      have lost : a.msb = decide (128 ≤ a.toNat) := BitVec.msb_eq_decide a
      rw [Balances, result, double, lost, toNat_decide]
      split <;> omega

/-- At most one result below 256 and one flag balance. -/
theorem eq_of_balances
    {operation : Arithmetic} {a b : Int} {result flag other mark : Nat}
    (balances : operation.Balances a b result flag)
    (balancesToo : operation.Balances a b other mark)
    (small : result < 256) (smallToo : other < 256)
    (atMostOne : flag ≤ 1) (atMostOneToo : mark ≤ 1) :
    other = result ∧ mark = flag := by
  cases operation <;> simp only [Balances] at balances balancesToo <;> omega

theorem exists_flag
    {operation : Arithmetic} (leavesOne : operation.leavesFlag = true)
    (a b : Byte) : ∃ flag, operation.flag? a b = some flag := by
  apply Option.ne_none_iff_exists'.mp
  rw [ne_eq, operation.flag_eq_none_iff, leavesOne]
  exact Bool.noConfusion

/-- A shift moves the first operand alone. -/
theorem shift_ignores_second
    {operation : Arithmetic}
    (isShift : operation = shiftRight ∨ operation = shiftLeft)
    (a b other : Byte) :
    operation.result a other = operation.result a b ∧
      operation.flag? a other = operation.flag? a b := by
  rcases isShift with rfl | rfl <;> exact ⟨rfl, rfl⟩

end Arithmetic

namespace Machine

/-! ## The cycle of an arithmetic word -/

variable {m : Machine} {operation : Arithmetic} {x y : Nibble}

theorem v_cycle_of_flag
    {flag : Bool} (asks : m.nextWord.AsksFor (.combine operation x y))
    (leaves : operation.flag? (m.v x) (m.v y) = some flag) (r : Nibble) :
    m.cycle.machine.v r =
      if Registers.flag = r then Arithmetic.flagByte flag
      else if x = r then operation.result (m.v x) (m.v y)
      else m.v r := by
  rw [machine_cycle, advance_of_asksFor asks rfl]
  exact v_combine_of_flag (m := m.fetch) leaves r

theorem v_cycle_of_no_flag
    (asks : m.nextWord.AsksFor (.combine operation x y))
    (leavesNone : operation.flag? (m.v x) (m.v y) = none) (r : Nibble) :
    m.cycle.machine.v r =
      if x = r then operation.result (m.v x) (m.v y) else m.v r := by
  rw [machine_cycle, advance_of_asksFor asks rfl]
  exact v_combine_of_no_flag (m := m.fetch) leavesNone r

/-- A register that an arithmetic word does not write to keeps its value. -/
theorem v_cycle_of_elsewhere
    (asks : m.nextWord.AsksFor (.combine operation x y)) {r : Nibble}
    (elsewhere : ¬m.Targets (.combine operation x y) r) :
    m.cycle.machine.v r = m.v r := by
  rw [machine_cycle, advance_of_asksFor asks rfl]
  exact m.fetch.v_combine_of_elsewhere elsewhere

theorem v_cycle_of_shift
    (asks : m.nextWord.AsksFor (.combine operation x y))
    (isShift : operation = .shiftRight ∨ operation = .shiftLeft)
    (apart : y ≠ x) (other : Byte) {r : Nibble}
    (written : r = x ∨ r = Registers.flag) :
    (m.setRegister y other).cycle.machine.v r = m.cycle.machine.v r := by
  have asksToo :
      (m.setRegister y other).nextWord.AsksFor (.combine operation x y) := asks
  have sameFirst : (m.setRegister y other).v x = m.v x :=
    v_setRegister_of_ne m other (Ne.symm apart)
  obtain ⟨sameResult, sameFlag⟩ :=
    Arithmetic.shift_ignores_second isShift (m.v x) (m.v y)
      ((m.setRegister y other).v y)
  have leavesOne : operation.leavesFlag = true := by
    rcases isShift with rfl | rfl <;> rfl
  obtain ⟨flag, leaves⟩ := Arithmetic.exists_flag leavesOne (m.v x) (m.v y)
  have leavesToo :
      operation.flag? ((m.setRegister y other).v x)
        ((m.setRegister y other).v y) = some flag := by
    rw [sameFirst, sameFlag, leaves]
  rw [v_cycle_of_flag asksToo leavesToo, v_cycle_of_flag asks leaves,
    sameFirst, sameResult]
  rcases written with rfl | rfl
  · simp only [if_true]
  · simp only [if_true]

/-- After an arithmetic word that leaves a flag, the flag register holds the flag
that balances the operands, as they were before, with the result, and the first
register holds that result unless it is the flag register itself.  A shift does not
depend on a second register other than the first.  The words that leave no flag
copy or combine the operands bit by bit.  No other register changes. -/
theorem flag_balances_result
    (asks : m.nextWord.AsksFor (.combine operation x y)) :
    let a := m.v x
    let b := m.v y
    let next := m.cycle.machine
    (operation.leavesFlag = true →
      ∃ result flag : Nat, result < 256 ∧ flag ≤ 1 ∧
        operation.Balances a.toNat b.toNat result flag ∧
        (∀ other mark : Nat, other < 256 → mark ≤ 1 →
          operation.Balances a.toNat b.toNat other mark →
            other = result ∧ mark = flag) ∧
        (next.v Registers.flag).toNat = flag ∧
        (x ≠ Registers.flag → (next.v x).toNat = result)) ∧
    (operation = .shiftRight ∨ operation = .shiftLeft → y ≠ x →
      ∀ other : Byte,
        let changed := (m.setRegister y other).cycle.machine
        changed.v x = next.v x ∧
          changed.v Registers.flag = next.v Registers.flag) ∧
    (operation = .copy → next.v x = b) ∧
    (∀ i,
      (operation = .or →
        (next.v x).getLsbD i = (a.getLsbD i || b.getLsbD i)) ∧
      (operation = .and →
        (next.v x).getLsbD i = (a.getLsbD i && b.getLsbD i)) ∧
      (operation = .xor →
        (next.v x).getLsbD i = (a.getLsbD i ^^ b.getLsbD i))) ∧
    ∀ r, r ≠ x → (r = Registers.flag → operation.leavesFlag = false) →
      next.v r = m.v r := by
  intro a b next
  refine ⟨?_, ?_, ?_, ?_, ?_⟩
  · intro leavesOne
    obtain ⟨flag, leaves⟩ := Arithmetic.exists_flag leavesOne a b
    have written := v_cycle_of_flag asks leaves
    have small : (operation.result a b).toNat < 256 :=
      (operation.result a b).isLt
    have atMostOne : flag.toNat ≤ 1 := Bool.toNat_le flag
    have balances := Arithmetic.balances_of_flag leaves
    refine ⟨_, _, small, atMostOne, balances, ?_, ?_, ?_⟩
    · intro other mark smallToo atMostOneToo balancesToo
      exact Arithmetic.eq_of_balances balances balancesToo small smallToo
        atMostOne atMostOneToo
    · change (m.cycle.machine.v Registers.flag).toNat = _
      rw [written, if_pos rfl, Arithmetic.toNat_flagByte]
    · intro otherRegister
      change (m.cycle.machine.v x).toNat = _
      rw [written, if_neg (Ne.symm otherRegister), if_pos rfl]
  · intro isShift apart other
    exact ⟨v_cycle_of_shift asks isShift apart other (Or.inl rfl),
      v_cycle_of_shift asks isShift apart other (Or.inr rfl)⟩
  · rintro rfl
    exact (v_cycle_of_no_flag asks rfl x).trans (if_pos rfl)
  · intro i
    refine ⟨?_, ?_, ?_⟩ <;> rintro rfl <;>
      change (m.cycle.machine.v x).getLsbD i = _ <;>
      rw [v_cycle_of_no_flag asks rfl, if_pos rfl]
    · exact BitVec.getLsbD_or
    · exact BitVec.getLsbD_and
    · exact BitVec.getLsbD_xor
  · intro r otherRegister noFlag
    apply v_cycle_of_elsewhere asks
    rintro (isFirst | ⟨isFlag, leavesOne⟩)
    · exact otherRegister isFirst
    · rw [noFlag isFlag] at leavesOne
      cases leavesOne

/-- A machine about to add a register to the flag register, with a carry. -/
def carryIntoFlag : Machine :=
  { powerOn {} (Vector.replicate 8 0) with
    memory := Memory.zero.store programStart [0x8F, 0x14]
    registers := (Registers.zero.set Registers.flag 200).set 1 100 }

theorem carryIntoFlag_added :
    carryIntoFlag.nextWord.AsksFor (.combine .add Registers.flag 1) ∧
      carryIntoFlag.v Registers.flag = 200 ∧ carryIntoFlag.v 1 = 100 ∧
      (carryIntoFlag.cycle.machine.v Registers.flag).toNat = 1 ∧
      carryIntoFlag.cycle.machine.v 1 = 100 := by
  have asks :
      carryIntoFlag.nextWord.AsksFor (.combine .add Registers.flag 1) := by
    refine ⟨?_, ?_, ?_, ?_⟩ <;> decide +kernel
  have first : carryIntoFlag.v Registers.flag = 200 := by decide +kernel
  have second : carryIntoFlag.v 1 = 100 := by decide +kernel
  obtain ⟨leaves, _, _, _, others⟩ := flag_balances_result asks
  obtain ⟨result, flag, small, atMostOne, balances, _, isFlag, _⟩ :=
    leaves rfl
  refine ⟨asks, first, second, ?_, ?_⟩
  · rw [first, second] at balances
    have sum : (result : Int) + 256 * flag = 200 + 100 := balances
    rw [isFlag]
    omega
  · rw [others 1 (by decide) (fun isFlag => absurd isFlag (by decide)), second]

end Machine

end ChipEight

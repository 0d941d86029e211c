import ChipEight.Proofs.Cycle

/-!
# Changes that a cycle overlooks

Most instructions have nothing to do with the memory, the timers or the keypad,
and none asks whether a redraw is due.  An instruction that overlooks a change to
these parts comes to the same on the changed machine, with the change still in
place afterwards, and so does the whole cycle.  In particular a part that is
overlooked is left as it is.
-/

namespace ChipEight

/-! ## Changes -/

/-- A change to the parts of a machine that most instructions leave alone. -/
structure Change where
  memory : Memory → Memory := id
  timers : Timers → Timers := id
  keypad : Keypad → Keypad := id
  redraw : Bool → Bool := id

def Machine.changed (m : Machine) (change : Change) : Machine :=
  { m with
    memory := change.memory m.memory
    timers := change.timers m.timers
    keypad := change.keypad m.keypad
    redraw := change.redraw m.redraw }

namespace Instruction

def usesMemory : Instruction → Bool
  | .draw .. | .storeDecimal _ | .saveRegisters _ | .loadRegisters _ => true
  | _ => false

def usesTimers : Instruction → Bool
  | .readDelay _ | .setDelay _ | .setSound _ => true
  | _ => false

def usesKeypad : Instruction → Bool
  | .skipPressed _ | .skipReleased _ | .awaitKey _ => true
  | _ => false

/-- A change touches nothing that an instruction uses.  An instruction can call
for a redraw, and the change must let that stand. -/
structure Overlooks (instruction : Instruction) (change : Change) : Prop where
  memory : instruction.usesMemory = true → change.memory = id
  timers : instruction.usesTimers = true → change.timers = id
  keypad : instruction.usesKeypad = true → change.keypad = id
  redraw : change.redraw true = true

end Instruction

namespace Machine

/-! ## One instruction -/

theorem changed_skipIf (m : Machine) (change : Change) (condition : Bool) :
    (m.changed change).skipIf condition =
      (m.skipIf condition).changed change := by
  cases condition <;> rfl

theorem changed_combine
    (m : Machine) (change : Change) (operation : Arithmetic) (x y : Nibble) :
    (m.changed change).combine operation x y =
      (m.combine operation x y).changed change := by
  cases operation <;> rfl

theorem execute_changed
    (m : Machine) {change : Change} {instruction : Instruction}
    (overlooks : instruction.Overlooks change) :
    (m.changed change).execute instruction =
      (m.execute instruction).map fun next => next.changed change := by
  cases instruction with
  | ret =>
      cases popped : m.stack.pop? <;>
        simp [execute, popped, Except.map, changed]
  | call target =>
      cases pushed : m.stack.push? m.pc <;>
        simp [execute, pushed, Except.map, changed]
  | awaitKey x =>
      have sameKeys := overlooks.keypad rfl
      cases pressed : m.keypad.firstPressed <;>
        simp [execute, pressed, Except.map, changed, setRegister, sameKeys]
  | combine operation x y =>
      simp only [execute, changed_combine, Except.map]
  | skipEqual x value | skipUnequal x value | skipSame x value
  | skipDifferent x value =>
      simp only [execute, changed_skipIf, Except.map]
      rfl
  | skipPressed x | skipReleased x =>
      have sameKeys := overlooks.keypad rfl
      simp only [execute, changed_skipIf, Except.map]
      simp only [changed, sameKeys]
      rfl
  | clearScreen =>
      simp [execute, Except.map, changed, overlooks.redraw]
  | draw x y height =>
      have sameMemory := overlooks.memory rfl
      simp [execute, Except.map, changed, Machine.draw, sameMemory,
        overlooks.redraw, v]
  | storeDecimal x | saveRegisters last | loadRegisters last =>
      have sameMemory := overlooks.memory rfl
      simp [execute, Except.map, changed, sameMemory, v]
  | readDelay x | setDelay x | setSound x =>
      have sameTimers := overlooks.timers rfl
      simp [execute, Except.map, changed, sameTimers, v, setRegister]
  | _ => rfl

/-! ## One cycle -/

/-- A cycle overlooks what its instruction overlooks, as long as the change
leaves the word at the counter. -/
theorem advance_changed
    {m : Machine} {change : Change}
    (sameWord : (m.changed change).nextWord = m.nextWord)
    (overlooked : ∀ instruction,
      Instruction.decode m.nextWord = some instruction →
        instruction.Overlooks change) :
    (m.changed change).advance =
      { m.advance with machine := m.advance.machine.changed change } := by
  have sameFetch : (m.changed change).fetch = m.fetch.changed change := by
    simp only [fetch, sameWord]
    rfl
  apply advance_map (fun next => next.changed change) sameWord rfl
    (fun _ => rfl) (fun _ => sameFetch)
  intro instruction decoded
  rw [sameFetch]
  exact m.fetch.execute_changed (overlooked _ decoded)

end Machine

end ChipEight

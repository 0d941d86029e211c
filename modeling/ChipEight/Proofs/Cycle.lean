import ChipEight.Machine.Operation
import ChipEight.Proofs.Decoding

/-!
# What a cycle can do

A cycle ends in one of three ways: the word was unknown, the call stack refused
the instruction, or the instruction was carried out.  The equations for these
ways are stated once, together with the exact conditions for a refusal and the
effect of every instruction on the call stack, the keypad, the random source and
the screen.  From them, `advance_map` compares the cycles of two machines by
comparing what their instruction comes to.
-/

namespace ChipEight

namespace Instruction

def drawsByte : Instruction → Bool
  | .random .. => true
  | _ => false

/-- Whether an instruction works on the screen. -/
def paints : Instruction → Bool
  | .clearScreen | .draw .. => true
  | _ => false

end Instruction

namespace Machine

/-! ## The three ways a cycle ends -/

@[simp]
theorem machine_cycle (m : Machine) : m.cycle.machine = m.advance.machine :=
  rfl

@[simp]
theorem reply_cycle (m : Machine) : m.cycle.reply = m.advance.reply :=
  rfl

theorem advance_of_unknown
    {m : Machine} (unknown : Instruction.decode m.nextWord = none) :
    m.advance = m.fetch.meetUnknown m.nextWord m.pc := by
  rw [advance, unknown]

theorem advance_of_refused
    {m : Machine} {instruction : Instruction} {fault : StackFault}
    (known : Instruction.decode m.nextWord = some instruction)
    (refused : m.fetch.execute instruction = .error fault) :
    m.advance =
      { machine := m.fetch
        reply := .refused (fault.at m.pc)
        messages := [.refused fault m.pc] } := by
  simp only [advance, known, refused]

theorem advance_of_executed
    {m next : Machine} {instruction : Instruction}
    (known : Instruction.decode m.nextWord = some instruction)
    (executed : m.fetch.execute instruction = .ok next) :
    m.advance = { machine := next } := by
  simp only [advance, known, executed]

theorem advance_of_asksFor
    {m next : Machine} {instruction : Instruction}
    (asks : m.nextWord.AsksFor instruction)
    (executed : m.fetch.execute instruction = .ok next) :
    m.advance = { machine := next } :=
  advance_of_executed (Instruction.decode_of_asksFor asks) executed

/-- The counter goes back to a word that awaits a key while none is held down. -/
theorem advance_of_noneHeld
    {m : Machine} {x : Nibble} (awaits : m.nextWord.AsksFor (.awaitKey x))
    (noneHeld : ∀ key, m.keypad.isPressed key = false) :
    m.advance = { machine := { m.fetch with pc := m.pc } } := by
  have noneFirst : m.fetch.keypad.firstPressed = none :=
    m.keypad.firstPressed_eq_none_iff.mpr noneHeld
  have executed :
      m.fetch.execute (.awaitKey x) =
        .ok { m.fetch with pc := m.fetch.pc - 2 } := by
    simp only [execute, noneFirst]
  have back : m.fetch.pc - 2 = m.pc := BitVec.add_sub_cancel m.pc 2
  rw [advance_of_asksFor awaits executed, back]

theorem advance_of_firstPressed
    {m : Machine} {x key : Nibble}
    (awaits : m.nextWord.AsksFor (.awaitKey x))
    (isFirst : m.keypad.firstPressed = some key) :
    m.advance =
      { machine := m.fetch.setRegister x (key.setWidth 8) } := by
  have firstFetched : m.fetch.keypad.firstPressed = some key := isFirst
  apply advance_of_asksFor awaits
  simp only [execute, firstFetched]

/-- An unknown word changes nothing, however it is met. -/
@[simp]
theorem machine_meetUnknown
    (m : Machine) (word : Word) (pc : Address) :
    (m.meetUnknown word pc).machine = m := by
  unfold meetUnknown
  split <;> rfl

/-- A cycle of one machine follows a cycle of another through a change, if the
counters are at the same word, its instruction does, and so does the fetch when
the instruction is not carried out. -/
theorem advance_map
    {m n : Machine} (change : Machine → Machine)
    (sameWord : n.nextWord = m.nextWord) (sameCounter : n.pc = m.pc)
    (samePolicy : Instruction.decode m.nextWord = none →
      n.settings.unknown = m.settings.unknown)
    (onlyFetched :
      (∀ instruction, Instruction.decode m.nextWord = some instruction →
        ∃ fault, m.fetch.execute instruction = .error fault) →
      n.fetch = change m.fetch)
    (follows : ∀ instruction,
      Instruction.decode m.nextWord = some instruction →
        n.fetch.execute instruction =
          (m.fetch.execute instruction).map change) :
    n.advance = { m.advance with machine := change m.advance.machine } := by
  cases decoded : Instruction.decode m.nextWord with
  | none =>
      have decodedAlike : Instruction.decode n.nextWord = none := by
        rw [sameWord, decoded]
      have sameFetch : n.fetch = change m.fetch := by
        apply onlyFetched
        simp [decoded]
      have policy : n.fetch.settings.unknown = m.fetch.settings.unknown :=
        samePolicy decoded
      rw [advance_of_unknown decoded, advance_of_unknown decodedAlike,
        sameWord, sameCounter]
      simp only [meetUnknown, policy]
      cases m.fetch.settings.unknown <;> simp [sameFetch]
  | some instruction =>
      have decodedAlike : Instruction.decode n.nextWord = some instruction := by
        rw [sameWord, decoded]
      have executedAlike := follows _ decoded
      cases executed : m.fetch.execute instruction with
      | ok next =>
          rw [executed] at executedAlike
          rw [advance_of_executed decoded executed,
            advance_of_executed decodedAlike executedAlike]
      | error fault =>
          have sameFetch : n.fetch = change m.fetch := by
            apply onlyFetched
            intro other isOther
            rw [decoded] at isOther
            cases isOther
            exact ⟨fault, executed⟩
          rw [executed] at executedAlike
          rw [advance_of_refused decoded executed,
            advance_of_refused decodedAlike executedAlike, sameFetch,
            sameCounter]

/-! ## Refusals -/

/-- Only a return without a frame and a call without room are refused. -/
theorem execute_eq_error_iff
    (m : Machine) (instruction : Instruction) (fault : StackFault) :
    m.execute instruction = .error fault ↔
      (instruction = .ret ∧ m.stack.depth = 0 ∧ fault = .underflow) ∨
        ∃ target, instruction = .call target ∧
          m.stack.depth = CallStack.capacity ∧ fault = .overflow := by
  cases instruction with
  | ret =>
      cases popped : m.stack.pop? with
      | none =>
          have isEmpty : m.stack.depth = 0 :=
            CallStack.pop?_eq_none_iff.mp popped
          simp [execute, popped, isEmpty, eq_comm]
      | some frame =>
          have notEmpty : m.stack.depth ≠ 0 := by
            intro isEmpty
            rw [CallStack.pop?_eq_none_iff.mpr isEmpty] at popped
            cases popped
          simp [execute, popped, notEmpty]
  | call target =>
      cases pushed : m.stack.push? m.pc with
      | none =>
          have isFull : m.stack.depth = CallStack.capacity :=
            CallStack.push?_eq_none_iff.mp pushed
          simp [execute, pushed, isFull, eq_comm]
      | some stack =>
          have notFull : m.stack.depth ≠ CallStack.capacity := by
            have room := (CallStack.push?_eq_some_iff.mp pushed).1
            omega
          simp [execute, pushed, notFull]
  | awaitKey x =>
      cases pressed : m.keypad.firstPressed <;> simp [execute, pressed]
  | _ => simp [execute]

/-! ## The call stack -/

@[simp]
theorem stack_skipIf (m : Machine) (condition : Bool) :
    (m.skipIf condition).stack = m.stack := by
  cases condition <;> rfl

@[simp]
theorem stack_combine
    (m : Machine) (operation : Arithmetic) (x y : Nibble) :
    (m.combine operation x y).stack = m.stack := by
  simp only [combine]
  split <;> rfl

/-- An instruction that is carried out leaves the call stack alone, pushes the
address after the call or takes off the address it goes on at. -/
theorem stack_of_executed
    {m next : Machine} {instruction : Instruction}
    (executed : m.execute instruction = .ok next) :
    next.stack = m.stack ∨
      (∃ target, instruction = .call target ∧
        m.stack.push? m.pc = some next.stack) ∨
      (instruction = .ret ∧
        m.stack.pop? = some (next.pc, next.stack)) := by
  cases instruction with
  | ret =>
      cases popped : m.stack.pop? with
      | none =>
          simp [execute, popped] at executed
      | some frame =>
          simp only [execute, popped, Except.ok.injEq] at executed
          subst executed
          exact Or.inr (Or.inr ⟨rfl, rfl⟩)
  | call target =>
      cases pushed : m.stack.push? m.pc with
      | none =>
          simp [execute, pushed] at executed
      | some stack =>
          simp only [execute, pushed, Except.ok.injEq] at executed
          subst executed
          exact Or.inr (Or.inl ⟨target, rfl, rfl⟩)
  | awaitKey x =>
      left
      cases pressed : m.keypad.firstPressed <;>
        simp only [execute, pressed, Except.ok.injEq] at executed <;>
        subst executed <;> rfl
  | _ =>
      left
      simp only [execute, Except.ok.injEq] at executed
      subst executed
      simp [setRegister, draw]

/-! ## The keypad, the random source and the screen -/

theorem skipIf_eq (m : Machine) (condition : Bool) :
    m.skipIf condition =
      { m with pc := if condition then m.pc + 2 else m.pc } := by
  cases condition <;> rfl

theorem combine_eq
    (m : Machine) (operation : Arithmetic) (x y : Nibble) :
    m.combine operation x y =
      { m with registers := (m.combine operation x y).registers } := by
  cases operation <;> rfl

/-- What an instruction that is carried out leaves alone: the keypad always, the
random source unless it draws a byte, the screen and its redraw unless it
paints. -/
structure Keeps (instruction : Instruction) (m next : Machine) : Prop where
  keypad : next.keypad = m.keypad
  random : instruction.drawsByte = false → next.random = m.random
  screen : instruction.paints = false → next.screen = m.screen
  redraw : instruction.paints = false → next.redraw = m.redraw

theorem keeps_of_executed
    {m next : Machine} {instruction : Instruction}
    (executed : m.execute instruction = .ok next) :
    Keeps instruction m next := by
  cases instruction with
  | random x mask =>
      cases executed
      refine ⟨rfl, ?_, fun _ => rfl, fun _ => rfl⟩
      intro impossible
      cases impossible
  | clearScreen | draw x y height =>
      cases executed
      refine ⟨rfl, fun _ => rfl, ?_, ?_⟩ <;>
        intro impossible <;> cases impossible
  | ret =>
      cases popped : m.stack.pop? <;>
        simp only [execute, popped] at executed <;> cases executed
      exact ⟨rfl, fun _ => rfl, fun _ => rfl, fun _ => rfl⟩
  | call target =>
      cases pushed : m.stack.push? m.pc <;>
        simp only [execute, pushed] at executed <;> cases executed
      exact ⟨rfl, fun _ => rfl, fun _ => rfl, fun _ => rfl⟩
  | awaitKey x =>
      cases pressed : m.keypad.firstPressed <;>
        simp only [execute, pressed] at executed <;> cases executed <;>
        exact ⟨rfl, fun _ => rfl, fun _ => rfl, fun _ => rfl⟩
  | combine operation x y =>
      cases executed
      rw [combine_eq]
      exact ⟨rfl, fun _ => rfl, fun _ => rfl, fun _ => rfl⟩
  | skipEqual x value | skipUnequal x value | skipSame x y
  | skipDifferent x y | skipPressed x | skipReleased x =>
      cases executed
      rw [skipIf_eq]
      exact ⟨rfl, fun _ => rfl, fun _ => rfl, fun _ => rfl⟩
  | _ =>
      cases executed
      exact ⟨rfl, fun _ => rfl, fun _ => rfl, fun _ => rfl⟩

/-- A cycle leaves the machine fetched, unless it carries an instruction out. -/
theorem machine_advance_cases (m : Machine) :
    m.advance.machine = m.fetch ∨
      ∃ instruction, m.nextWord.AsksFor instruction ∧
        m.fetch.execute instruction = .ok m.advance.machine := by
  cases decoded : Instruction.decode m.nextWord with
  | none =>
      left
      rw [advance_of_unknown decoded, machine_meetUnknown]
  | some instruction =>
      cases executed : m.fetch.execute instruction with
      | error fault =>
          left
          rw [advance_of_refused decoded executed]
      | ok next =>
          right
          have asks := Instruction.asksFor_of_decode decoded
          rw [advance_of_executed decoded executed]
          exact ⟨instruction, asks, executed⟩

end Machine

end ChipEight

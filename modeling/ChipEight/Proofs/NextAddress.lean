import ChipEight.Proofs.Destinations
import ChipEight.Proofs.Refusal

/-!
# Where the program counter goes

A cycle moves the counter past its word, and few words then send it elsewhere.
`Machine.destination?` lists these words with the addresses that they lead to, in
numbers, so that it says how an address wraps around.  After all other words the
counter goes on, whatever they do, and so it does when a word is refused or
unknown.
-/

namespace ChipEight.Machine

/-! ## Where a word leads -/

/-- The word at the counter passes over the word after it. -/
def PassesOver (m : Machine) : Prop :=
  let w := m.nextWord
  (w.family = 3 ∧ m.v w.x = w.lowByte) ∨
    (w.family = 4 ∧ m.v w.x ≠ w.lowByte) ∨
    (w.family = 5 ∧ w.lowNibble = 0 ∧ m.v w.x = m.v w.y) ∨
    (w.family = 9 ∧ w.lowNibble = 0 ∧ m.v w.x ≠ m.v w.y) ∨
    (w.family = 0xE ∧ w.lowByte = 0x9E ∧
      m.keypad.isPressed (m.v w.x).low = true) ∨
    (w.family = 0xE ∧ w.lowByte = 0xA1 ∧
      m.keypad.isPressed (m.v w.x).low = false)

instance (m : Machine) : Decidable m.PassesOver := by
  unfold PassesOver
  infer_instance

/-- Where the word at the counter leads, unless it leads to the word after it. -/
def destination? (m : Machine) : Option Nat :=
  let w := m.nextWord
  if w.family = 1 then some w.target.toNat
  else if w.family = 2 then
    if m.stack.depth < 16 then some w.target.toNat else none
  else if w.family = 0xB then
    some ((w.target.toNat + (m.v 0).toNat) % 4096)
  else if w.family = 0 ∧ w.lowByte = 0xEE then
    m.stack.toList.getLast?.map BitVec.toNat
  else if w.family = 0xF ∧ w.lowByte = 0x0A then
    if ∀ key, m.keypad.isPressed key = false then some m.pc.toNat else none
  else if m.PassesOver then some ((m.pc.toNat + 4) % 4096)
  else none

theorem isKnown_of_passesOver
    {m : Machine} (passes : m.PassesOver) : m.nextWord.IsKnown := by
  unfold Word.IsKnown
  rcases passes with ⟨family, _⟩ | ⟨family, _⟩ | ⟨family, low, _⟩ |
    ⟨family, low, _⟩ | ⟨family, low, _⟩ | ⟨family, low, _⟩ <;>
    simp [*]

theorem destination_of_unknown
    {m : Machine} (isUnknown : ¬m.nextWord.IsKnown) :
    m.destination? = none := by
  have passesNot : ¬m.PassesOver := mt isKnown_of_passesOver isUnknown
  have others :
      m.nextWord.family ≠ 1 ∧ m.nextWord.family ≠ 2 ∧
        m.nextWord.family ≠ 0xB ∧
        ¬(m.nextWord.family = 0 ∧ m.nextWord.lowByte = 0xEE) ∧
        ¬(m.nextWord.family = 0xF ∧ m.nextWord.lowByte = 0x0A) := by
    refine ⟨?_, ?_, ?_, ?_, ?_⟩ <;> intro word <;> apply isUnknown <;>
      simp [Word.IsKnown, word]
  simp only [destination?, others, passesNot, if_false]

theorem destination_of_skip
    {m : Machine}
    (isSkip : m.nextWord.family ∈ ([3, 4, 5, 9, 0xE] : List Nibble)) :
    m.destination? =
      if m.PassesOver then some ((m.pc.toNat + 4) % 4096) else none := by
  simp only [List.mem_cons, List.not_mem_nil, or_false] at isSkip
  rcases isSkip with family | family | family | family | family <;>
    simp [destination?, family]

/-! ## The word kept as the latest -/

theorem lastWord_advance (m : Machine) :
    m.advance.machine.lastWord = m.nextWord := by
  rcases m.machine_advance_cases with onlyFetched | ⟨_, _, executed⟩
  · rw [onlyFetched]
    rfl
  · exact (spares_of_executed executed).lastWord

/-! ## The counter under a cycle -/

theorem toNat_pc_fetch (m : Machine) :
    m.fetch.pc.toNat = (m.pc.toNat + 2) % 4096 :=
  BitVec.toNat_add m.pc 2

theorem pc_advance_of_skip
    {m : Machine} {instruction : Instruction} {condition : Bool}
    (decoded : Instruction.decode m.nextWord = some instruction)
    (executed : m.fetch.execute instruction = .ok (m.fetch.skipIf condition))
    (isSkip : m.nextWord.family ∈ ([3, 4, 5, 9, 0xE] : List Nibble))
    (tells : condition = true ↔ m.PassesOver) :
    m.advance.machine.pc.toNat =
      m.destination?.getD ((m.pc.toNat + 2) % 4096) := by
  rw [advance_of_executed decoded executed, destination_of_skip isSkip]
  cases condition with
  | false =>
      have passesNot : ¬m.PassesOver := mt tells.mpr Bool.false_ne_true
      rw [if_neg passesNot]
      exact m.toNat_pc_fetch
  | true =>
      have twice : (m.fetch.skipIf true).pc = m.pc + 4 :=
        BitVec.add_assoc m.pc 2 2
      rw [if_pos (tells.mp rfl), twice]
      exact BitVec.toNat_add m.pc 4

theorem pc_advance_of_call
    {m : Machine} (isCall : m.nextWord.family = 2) :
    m.advance.machine.pc.toNat =
      m.destination?.getD ((m.pc.toNat + 2) % 4096) := by
  have decoded :
      Instruction.decode m.nextWord = some (.call m.nextWord.target) :=
    (Instruction.decode_eq_call_iff _ _).mpr ⟨isCall, rfl⟩
  have leads :
      m.destination? =
        if m.stack.depth < 16 then some m.nextWord.target.toNat else none := by
    simp [destination?, isCall]
  cases pushed : m.fetch.stack.push? m.fetch.pc with
  | none =>
      have isFull : m.stack.depth = 16 :=
        CallStack.push?_eq_none_iff.mp pushed
      have refused :
          m.fetch.execute (.call m.nextWord.target) = .error .overflow := by
        simp only [execute, pushed]
      rw [advance_of_refused decoded refused, leads, isFull]
      exact m.toNat_pc_fetch
  | some stack =>
      have room : m.stack.depth < 16 :=
        (CallStack.push?_eq_some_iff.mp pushed).1
      have executed :
          m.fetch.execute (.call m.nextWord.target) =
            .ok { m.fetch with pc := m.nextWord.target, stack := stack } := by
        simp only [execute, pushed]
      rw [advance_of_executed decoded executed, leads, if_pos room]
      rfl

theorem pc_advance_of_ret
    {m : Machine}
    (isReturn : m.nextWord.family = 0 ∧ m.nextWord.lowByte = 0xEE) :
    m.advance.machine.pc.toNat =
      m.destination?.getD ((m.pc.toNat + 2) % 4096) := by
  have decoded : Instruction.decode m.nextWord = some .ret :=
    (Instruction.decode_eq_ret_iff _).mpr isReturn
  have leads :
      m.destination? = m.stack.toList.getLast?.map BitVec.toNat := by
    simp [destination?, isReturn]
  cases popped : m.fetch.stack.pop? with
  | none =>
      have isEmpty : m.stack.toList = [] :=
        List.eq_nil_of_length_eq_zero
          (m.stack.length_toList.trans (CallStack.pop?_eq_none_iff.mp popped))
      have refused : m.fetch.execute .ret = .error .underflow := by
        simp only [execute, popped]
      rw [advance_of_refused decoded refused, leads, isEmpty]
      exact m.toNat_pc_fetch
  | some frame =>
      have newest : m.stack.toList = frame.2.toList ++ [frame.1] :=
        CallStack.pop?_eq_some_iff.mp popped
      have executed :
          m.fetch.execute .ret =
            .ok { m.fetch with pc := frame.1, stack := frame.2 } := by
        simp only [execute, popped]
      rw [advance_of_executed decoded executed, leads, newest,
        List.getLast?_concat]
      rfl

theorem pc_advance_of_awaitKey
    {m : Machine} {x : Nibble}
    (awaits : m.nextWord.AsksFor (.awaitKey x)) :
    m.advance.machine.pc.toNat =
      m.destination?.getD ((m.pc.toNat + 2) % 4096) := by
  have leads :
      m.destination? =
        if ∀ key, m.keypad.isPressed key = false then some m.pc.toNat
        else none := by
    simp [destination?, awaits.1, awaits.2.1]
  cases first : m.keypad.firstPressed with
  | none =>
      have noneHeld : ∀ key, m.keypad.isPressed key = false :=
        m.keypad.firstPressed_eq_none_iff.mp first
      rw [advance_of_noneHeld awaits noneHeld, leads, if_pos noneHeld]
      rfl
  | some key =>
      have someHeld : ¬∀ key, m.keypad.isPressed key = false := by
        intro noneHeld
        have noneFirst := m.keypad.firstPressed_eq_none_iff.mpr noneHeld
        cases first.symm.trans noneFirst
      rw [advance_of_firstPressed awaits first, leads, if_neg someHeld]
      exact m.toNat_pc_fetch

theorem pc_advance (m : Machine) :
    m.advance.machine.pc.toNat =
      m.destination?.getD ((m.pc.toNat + 2) % 4096) := by
  cases decoded : Instruction.decode m.nextWord with
  | none =>
      have isUnknown := (Instruction.decode_eq_none_iff _).mp decoded
      rw [advance_of_unknown decoded, machine_meetUnknown,
        destination_of_unknown isUnknown]
      exact m.toNat_pc_fetch
  | some instruction =>
      have asks := (Instruction.decode_eq_some_iff _ _).mp decoded
      cases instruction with
      | ret =>
          exact pc_advance_of_ret asks
      | call target =>
          exact pc_advance_of_call asks.1
      | awaitKey x =>
          exact pc_advance_of_awaitKey asks
      | jump target =>
          obtain ⟨family, rfl⟩ := asks
          rw [advance_of_executed decoded rfl]
          simp [destination?, family]
      | jumpFrom base =>
          obtain ⟨family, rfl⟩ := asks
          rw [advance_of_executed decoded rfl]
          simp [destination?, family, Byte.toAddress, v, fetch]
      | skipEqual x value | skipUnequal x value =>
          obtain ⟨family, rfl, rfl⟩ := asks
          apply pc_advance_of_skip decoded rfl
          · simp [family]
          · simp [PassesOver, family, v, fetch]
      | skipSame x y | skipDifferent x y =>
          obtain ⟨family, low, rfl, rfl⟩ := asks
          apply pc_advance_of_skip decoded rfl
          · simp [family]
          · simp [PassesOver, family, low, v, fetch]
      | skipPressed x | skipReleased x =>
          obtain ⟨family, low, rfl⟩ := asks
          apply pc_advance_of_skip decoded rfl
          · simp [family]
          · simp [PassesOver, family, low, v, fetch]
      | combine operation x y =>
          have goesOn : m.destination? = none := by
            simp [destination?, PassesOver, asks.1]
          rw [advance_of_executed decoded rfl, goesOn, combine_eq]
          exact m.toNat_pc_fetch
      -- All other instructions leave the counter where the fetch has put it.
      | _ =>
          have goesOn : m.destination? = none := by
            simp [destination?, PassesOver, asks.1, asks.2]
          rw [advance_of_executed decoded rfl, goesOn]
          exact m.toNat_pc_fetch

/-- The words that can pass over the next one do nothing else with the counter. -/
theorem pc_cycle_of_skip
    {m : Machine}
    (isSkip : m.nextWord.family ∈ ([3, 4, 5, 9, 0xE] : List Nibble)) :
    (m.cycle.machine.pc = m.pc + 4 ↔ m.PassesOver) ∧
      (m.cycle.machine.pc = m.pc + 2 ↔ ¬m.PassesOver) := by
  have apart :
      (m.pc.toNat + 4) % 4096 ≠ (m.pc.toNat + 2) % 4096 := by omega
  have four : (m.pc + 4).toNat = (m.pc.toNat + 4) % 4096 :=
    BitVec.toNat_add m.pc 4
  have two : (m.pc + 2).toNat = (m.pc.toNat + 2) % 4096 :=
    BitVec.toNat_add m.pc 2
  have leads := m.pc_advance
  rw [destination_of_skip isSkip] at leads
  rw [machine_cycle, ← BitVec.toNat_inj, ← BitVec.toNat_inj, four, two, leads]
  by_cases passes : m.PassesOver
  · simp [passes, apart]
  · simp [passes, apart.symm]

/-! ## The law of the next address -/

/-- After a cycle the counter is where the word leads, and past the word if it
leads nowhere else: in particular if the word is refused or unknown.  The word
that was at the counter is kept as the latest one. -/
theorem cycle_goes_to_destination (m : Machine) :
    m.cycle.machine.pc.toNat =
        m.destination?.getD ((m.pc.toNat + 2) % 4096) ∧
      (∀ fault, m.cycle.reply = .refused fault →
        m.cycle.machine.pc.toNat = (m.pc.toNat + 2) % 4096) ∧
      (¬m.nextWord.IsKnown →
        m.cycle.machine.pc.toNat = (m.pc.toNat + 2) % 4096) ∧
      m.cycle.machine.lastWord = m.nextWord ∧
      m.nextWord.toNat =
        256 * (m.memory.read m.pc).toNat +
          (m.memory.read (m.pc + 1)).toNat := by
  refine ⟨m.pc_advance, ?_, ?_, m.lastWord_advance, m.toNat_nextWord⟩
  · intro fault reported
    have refuses := (m.reply_cycle_eq_refused_iff fault).mp reported
    rw [machine_cycle_of_refuses refuses]
    exact m.toNat_pc_fetch
  · intro isUnknown
    have goesOn := m.pc_advance
    rwa [destination_of_unknown isUnknown] at goesOn

end ChipEight.Machine

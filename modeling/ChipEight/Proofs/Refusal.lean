import ChipEight.Proofs.Cycle

/-!
# Refusals

`Machine.Refuses` lists the faults that a machine is about to report, told by the
word at the counter, the depth of the call stack and the policy alone.  A cycle
reports exactly these faults, and one that reports a fault has done nothing but
the fetch.  Loading refuses exactly the programs that do not fit, and then does
nothing.
-/

namespace ChipEight.Machine

/-- The fault that the word at the counter is due, if one is. -/
inductive Refuses (m : Machine) : Fault → Prop
  | underflow
      (isReturn : m.nextWord.family = 0 ∧ m.nextWord.lowByte = 0xEE)
      (isEmpty : m.stack.depth = 0) :
      Refuses m (.stackUnderflow m.pc.toWord)
  | overflow
      (isCall : m.nextWord.family = 2)
      (isFull : m.stack.depth = CallStack.capacity) :
      Refuses m (.stackOverflow m.pc.toWord)
  | unknown
      (strict : m.settings.unknown = .fail)
      (isUnknown : ¬m.nextWord.IsKnown) :
      Refuses m (.unknownWord m.nextWord m.pc.toWord)

/-! ## The word at the counter -/

theorem toNat_nextWord (m : Machine) :
    m.nextWord.toNat =
      256 * (m.memory.read m.pc).toNat +
        (m.memory.read (m.pc + 1)).toNat := by
  have lowBound := (m.memory.read (m.pc + 1)).isLt
  rw [nextWord, Memory.wordAt, Word.ofBytes, BitVec.toNat_append,
    ← Nat.shiftLeft_add_eq_or_of_lt lowBound, Nat.shiftLeft_eq]
  omega

/-! ## Which faults a cycle reports -/

/-- The due faults in the terms of the decoder. -/
theorem refuses_iff (m : Machine) (fault : Fault) :
    m.Refuses fault ↔
      (Instruction.decode m.nextWord = some .ret ∧ m.stack.depth = 0 ∧
        fault = .stackUnderflow m.pc.toWord) ∨
      (∃ target, Instruction.decode m.nextWord = some (.call target) ∧
        m.stack.depth = CallStack.capacity ∧
        fault = .stackOverflow m.pc.toWord) ∨
      (Instruction.decode m.nextWord = none ∧
        m.settings.unknown = .fail ∧
        fault = .unknownWord m.nextWord m.pc.toWord) := by
  constructor
  · rintro (⟨isReturn, isEmpty⟩ | ⟨isCall, isFull⟩ | ⟨strict, isUnknown⟩)
    · exact Or.inl
        ⟨(Instruction.decode_eq_ret_iff _).mpr isReturn, isEmpty, rfl⟩
    · exact Or.inr <| Or.inl
        ⟨_, (Instruction.decode_eq_call_iff _ _).mpr ⟨isCall, rfl⟩,
          isFull, rfl⟩
    · exact Or.inr <| Or.inr
        ⟨(Instruction.decode_eq_none_iff _).mpr isUnknown, strict, rfl⟩
  · rintro (⟨decoded, isEmpty, rfl⟩ | ⟨target, decoded, isFull, rfl⟩ |
      ⟨decoded, strict, rfl⟩)
    · exact .underflow
        ((Instruction.decode_eq_ret_iff _).mp decoded) isEmpty
    · exact .overflow
        ((Instruction.decode_eq_call_iff _ _).mp decoded).1 isFull
    · exact .unknown strict ((Instruction.decode_eq_none_iff _).mp decoded)

/-- A cycle is carried out or reports the one fault that is due; with a fault
it has only fetched. -/
theorem advance_cases (m : Machine) :
    (m.advance.reply = .done ∧ ∀ fault, ¬m.Refuses fault) ∨
      ∃ fault, m.advance.reply = .refused fault ∧
        (∀ other, m.Refuses other ↔ other = fault) ∧
        m.advance.machine = m.fetch := by
  cases decoded : Instruction.decode m.nextWord with
  | none =>
      rw [advance_of_unknown decoded]
      have policyKept : m.fetch.settings = m.settings := rfl
      cases policy : m.settings.unknown with
      | ignore =>
          left
          simp [meetUnknown, refuses_iff, decoded, policyKept, policy]
      | fail =>
          right
          refine ⟨.unknownWord m.nextWord m.pc.toWord, ?_⟩
          simp [meetUnknown, refuses_iff, decoded, policyKept, policy]
  | some instruction =>
      have dueFaults := m.fetch.execute_eq_error_iff instruction
      have stackKept : m.fetch.stack = m.stack := rfl
      rw [stackKept] at dueFaults
      cases executed : m.fetch.execute instruction with
      | ok next =>
          left
          rw [advance_of_executed decoded executed]
          refine ⟨rfl, ?_⟩
          intro fault refuses
          rw [refuses_iff, decoded] at refuses
          rw [executed] at dueFaults
          rcases refuses with
            ⟨isReturn, isEmpty, _⟩ | ⟨target, isCall, isFull, _⟩ |
              ⟨impossible, _⟩
          · exact absurd
              ((dueFaults .underflow).mpr
                (Or.inl ⟨Option.some.inj isReturn, isEmpty, rfl⟩))
              (by simp)
          · exact absurd
              ((dueFaults .overflow).mpr
                (Or.inr ⟨target, Option.some.inj isCall, isFull, rfl⟩))
              (by simp)
          · cases impossible
      | error fault =>
          right
          rw [advance_of_refused decoded executed]
          refine ⟨fault.at m.pc, rfl, ?_, rfl⟩
          intro other
          rw [refuses_iff, decoded]
          rcases (dueFaults fault).mp executed with
            ⟨rfl, isEmpty, rfl⟩ | ⟨target, rfl, isFull, rfl⟩
          · simp [isEmpty, StackFault.at]
          · simp [isFull, StackFault.at]

theorem reply_cycle_eq_refused_iff (m : Machine) (fault : Fault) :
    m.cycle.reply = .refused fault ↔ m.Refuses fault := by
  change m.advance.reply = .refused fault ↔ _
  rcases m.advance_cases with
    ⟨isDone, noneDue⟩ | ⟨reported, isReported, due, _⟩
  · simp [isDone, noneDue fault]
  · rw [isReported, due fault]
    simp [eq_comm]

theorem reply_cycle_eq_done_iff (m : Machine) :
    m.cycle.reply = .done ↔ ∀ fault, ¬m.Refuses fault := by
  change m.advance.reply = .done ↔ _
  rcases m.advance_cases with
    ⟨isDone, noneDue⟩ | ⟨reported, isReported, due, _⟩
  · simp [isDone, noneDue]
  · simp [isReported, due]

/-- A cycle with a fault has only fetched. -/
theorem machine_cycle_of_refuses
    {m : Machine} {fault : Fault} (refuses : m.Refuses fault) :
    m.cycle.machine = m.fetch := by
  change m.advance.machine = m.fetch
  rcases m.advance_cases with
    ⟨_, noneDue⟩ | ⟨_, _, _, onlyFetched⟩
  · exact absurd refuses (noneDue fault)
  · exact onlyFetched

/-! ## Loading -/

theorem reply_load_eq_refused_iff
    (m : Machine) (program : List Byte) (fault : Fault) :
    (m.load program).reply = .refused fault ↔
      programLimit < program.length ∧
        fault = .programTooLarge program.length programLimit := by
  unfold load
  split
  · rename_i fits
    simp [Nat.not_lt.mpr fits]
  · rename_i tooLarge
    simp [Nat.lt_of_not_le tooLarge, eq_comm]

theorem load_of_tooLarge
    (m : Machine) {program : List Byte}
    (tooLarge : programLimit < program.length) :
    (m.load program).machine = m := by
  simp [load, Nat.not_le.mpr tooLarge]

/-! ## What a refusal leaves -/

/-- An operation that is refused has done nothing, or nothing but the fetch. -/
theorem machine_apply_of_refused
    {m : Machine} {operation : Operation} {fault : Fault}
    (refused : (m.apply operation).reply = .refused fault) :
    (m.apply operation).machine = m ∨
      (m.apply operation).machine = m.fetch := by
  cases operation with
  | load program =>
      have tooLarge := ((m.reply_load_eq_refused_iff program fault).mp refused).1
      exact Or.inl (m.load_of_tooLarge tooLarge)
  | cycle =>
      have refuses := (m.reply_cycle_eq_refused_iff fault).mp refused
      exact Or.inr (machine_cycle_of_refuses refuses)
  | _ =>
      cases refused

/-- Faults are reported exactly when they are due, with the address and the word
of the instruction, and a reported fault leaves everything as it was but for the
fetch.  A program is refused exactly when it does not fit, and then nothing at
all is changed. -/
theorem faults_exact_and_atomic (m : Machine) :
    m.nextWord.toNat =
        256 * (m.memory.read m.pc).toNat +
          (m.memory.read (m.pc + 1)).toNat ∧
      (∀ fault, m.cycle.reply = .refused fault ↔ m.Refuses fault) ∧
      (m.cycle.reply = .done ↔ ∀ fault, ¬m.Refuses fault) ∧
      (∀ fault, m.cycle.reply = .refused fault →
        m.cycle.machine =
          { m with lastWord := m.nextWord, pc := m.pc + 2 }) ∧
      ∀ program : List Byte,
        (∀ fault, (m.load program).reply = .refused fault ↔
          3584 < program.length ∧
            fault = .programTooLarge program.length 3584) ∧
        (3584 < program.length → (m.load program).machine = m) := by
  refine ⟨m.toNat_nextWord, m.reply_cycle_eq_refused_iff,
    m.reply_cycle_eq_done_iff, ?_, ?_⟩
  · intro fault reported
    exact machine_cycle_of_refuses
      ((m.reply_cycle_eq_refused_iff fault).mp reported)
  · intro program
    exact ⟨m.reply_load_eq_refused_iff program, m.load_of_tooLarge⟩

end ChipEight.Machine

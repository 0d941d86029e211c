import ChipEight.Proofs.Change

/-!
# Footprints in memory

Every operation reads bytes at some addresses and writes bytes at some others.
A memory that holds the same bytes at the addresses read can take the place of
the memory of a machine: the operation comes to the same, and it writes the same
bytes to the same addresses.
-/

namespace ChipEight

/-! ## Runs of addresses -/

namespace Memory

/-- The addresses of a run of bytes from an address upwards. -/
def span (a : Address) (count : Nat) : List Address :=
  (List.range count).map fun k => a + BitVec.ofNat 12 k

theorem mem_span_iff (a c : Address) {count : Nat} (fits : count ≤ 4096) :
    c ∈ span a count ↔ (c - a).toNat < count := by
  rw [span, List.mem_map]
  constructor
  · rintro ⟨k, inRun, rfl⟩
    have inside : k < count := List.mem_range.mp inRun
    rw [(Address.toNat_sub_eq_iff _ a (by omega)).mpr rfl]
    exact inside
  · intro inside
    have there := (Address.toNat_sub_eq_iff c a (c - a).isLt).mp rfl
    exact ⟨(c - a).toNat, List.mem_range.mpr inside, there.symm⟩

theorem window_congr
    {left right : Memory} {a : Address} {count : Nat}
    (same : ∀ c ∈ span a count, left.read c = right.read c) :
    left.window a count = right.window a count := by
  apply List.map_congr_left
  intro k inRun
  exact same _ (List.mem_map_of_mem inRun)

theorem read_store_of_notMem
    (memory : Memory) {a c : Address} {bytes : List Byte}
    (fits : bytes.length ≤ 4096) (outside : c ∉ span a bytes.length) :
    (memory.store a bytes).read c = memory.read c := by
  rw [mem_span_iff a c fits, Nat.not_lt] at outside
  rw [read_store _ _ _ _ fits, List.getElem?_eq_none outside]
  rfl

/-- After the same run has been stored in two memories, they hold the same bytes
in its place and wherever they did before. -/
theorem read_store_congr
    {left right : Memory} {a c : Address} {bytes : List Byte}
    (fits : bytes.length ≤ 4096)
    (same : c ∉ span a bytes.length → left.read c = right.read c) :
    (left.store a bytes).read c = (right.store a bytes).read c := by
  by_cases inRun : c ∈ span a bytes.length
  · have inside := (mem_span_iff a c fits).mp inRun
    rw [read_store _ _ _ _ fits, read_store _ _ _ _ fits,
      List.getElem?_eq_getElem inside]
    rfl
  · rw [read_store_of_notMem _ fits inRun,
      read_store_of_notMem _ fits inRun, same inRun]

end Memory

namespace Machine

/-! ## What an operation reads and writes -/

/-- The addresses from which the word at the counter reads data: the rows of a
sprite, or the bytes that are loaded into registers. -/
def readSpan (m : Machine) : List Address :=
  let w := m.nextWord
  if w.family = 0xD then Memory.span m.index w.lowNibble.toNat
  else if w.family = 0xF ∧ w.lowByte = 0x65 then
    Memory.span m.index (w.x.toNat + 1)
  else []

/-- The addresses to which the word at the counter writes: three decimal digits,
or the contents of registers. -/
def writeSpan (m : Machine) : List Address :=
  let w := m.nextWord
  if w.family = 0xF ∧ w.lowByte = 0x33 then Memory.span m.index 3
  else if w.family = 0xF ∧ w.lowByte = 0x55 then
    Memory.span m.index (w.x.toNat + 1)
  else []

/-- The addresses that an operation reads.  Only a cycle reads; it begins with
the word at the counter. -/
def reads (m : Machine) : Operation → List Address
  | .cycle => m.pc :: (m.pc + 1) :: m.readSpan
  | _ => []

def writes (m : Machine) : Operation → List Address
  | .load program =>
    if program.length ≤ programLimit then
      Memory.span programStart program.length
    else []
  | .cycle => m.writeSpan
  | .reset => Memory.span 0 (16 * Font.glyphHeight)
  | .clear => Memory.span 0 Memory.size
  | _ => []

/-! ## What an operation makes of a memory -/

/-- The bytes that an instruction stores from the index upwards. -/
def stored (m : Machine) : Instruction → List Byte
  | .storeDecimal x => decimalDigits (m.v x)
  | .saveRegisters last => m.registers.upTo last
  | _ => []

/-- The bytes that the word at the counter stores from the index upwards. -/
def storedNext (m : Machine) : List Byte :=
  match Instruction.decode m.nextWord with
  | some instruction => m.stored instruction
  | none => []

/-- What an operation makes of a memory. -/
def remember (m : Machine) (operation : Operation) (memory : Memory) : Memory :=
  match operation with
  | .load program =>
    if program.length ≤ programLimit then memory.store programStart program
    else memory
  | .cycle => memory.store m.index m.storedNext
  | .reset => memory.store 0 Font.bytes
  | .clear => Memory.zero.store 0 Font.bytes
  | _ => memory

theorem storedNext_of_decimal
    {m : Machine}
    (isDecimal : m.nextWord.family = 0xF ∧ m.nextWord.lowByte = 0x33) :
    m.storedNext = decimalDigits (m.v m.nextWord.x) := by
  have decoded :
      Instruction.decode m.nextWord = some (.storeDecimal m.nextWord.x) :=
    (Instruction.decode_eq_some_iff _ _).mpr ⟨isDecimal.1, isDecimal.2, rfl⟩
  simp only [storedNext, decoded, stored]

theorem storedNext_of_save
    {m : Machine}
    (isSave : m.nextWord.family = 0xF ∧ m.nextWord.lowByte = 0x55) :
    m.storedNext = m.registers.upTo m.nextWord.x := by
  have decoded :
      Instruction.decode m.nextWord = some (.saveRegisters m.nextWord.x) :=
    (Instruction.decode_eq_some_iff _ _).mpr ⟨isSave.1, isSave.2, rfl⟩
  simp only [storedNext, decoded, stored]

theorem storedNext_of_neither
    {m : Machine}
    (noDecimal : ¬(m.nextWord.family = 0xF ∧ m.nextWord.lowByte = 0x33))
    (noSave : ¬(m.nextWord.family = 0xF ∧ m.nextWord.lowByte = 0x55)) :
    m.storedNext = [] := by
  unfold storedNext
  cases decoded : Instruction.decode m.nextWord with
  | none =>
      rfl
  | some instruction =>
      have asks := (Instruction.decode_eq_some_iff _ _).mp decoded
      cases instruction with
      | storeDecimal x =>
          exact absurd ⟨asks.1, asks.2.1⟩ noDecimal
      | saveRegisters last =>
          exact absurd ⟨asks.1, asks.2.1⟩ noSave
      | _ => rfl

theorem writeSpan_eq (m : Machine) :
    m.writeSpan = Memory.span m.index m.storedNext.length := by
  by_cases isDecimal :
      m.nextWord.family = 0xF ∧ m.nextWord.lowByte = 0x33
  · simp only [writeSpan, if_pos isDecimal, storedNext_of_decimal isDecimal]
    rfl
  by_cases isSave : m.nextWord.family = 0xF ∧ m.nextWord.lowByte = 0x55
  · simp only [writeSpan, if_neg isDecimal, if_pos isSave,
      storedNext_of_save isSave, Registers.length_upTo]
  simp only [writeSpan, if_neg isDecimal, if_neg isSave,
    storedNext_of_neither isDecimal isSave]
  rfl

theorem length_storedNext_le (m : Machine) : m.storedNext.length ≤ 16 := by
  unfold storedNext
  cases Instruction.decode m.nextWord with
  | none =>
      simp
  | some instruction =>
      cases instruction with
      | storeDecimal x =>
          simp [stored, decimalDigits]
      | saveRegisters last =>
          have bounded := last.toNat_lt_sixteen
          simp only [stored, Registers.length_upTo]
          omega
      | _ => simp [stored]

theorem storedNext_of_refused
    {m : Machine}
    (refused : ∀ instruction,
      Instruction.decode m.nextWord = some instruction →
        ∃ fault, m.fetch.execute instruction = .error fault) :
    m.storedNext = [] := by
  unfold storedNext
  cases decoded : Instruction.decode m.nextWord with
  | none =>
      rfl
  | some instruction =>
      obtain ⟨fault, isRefused⟩ := refused _ decoded
      rcases (m.fetch.execute_eq_error_iff _ _).mp isRefused with
        ⟨rfl, _⟩ | ⟨target, rfl, _⟩
      · rfl
      · rfl

/-! ## Another memory in place of that of a machine -/

def withMemory (m : Machine) (memory : Memory) : Machine :=
  { m with memory := memory }

variable {m : Machine} {memory : Memory}

theorem execute_withMemory
    {instruction : Instruction}
    (decoded : Instruction.decode m.nextWord = some instruction)
    (sameData : ∀ c ∈ m.readSpan, memory.read c = m.memory.read c) :
    (m.fetch.withMemory memory).execute instruction =
      (m.fetch.execute instruction).map fun next =>
        next.withMemory (memory.store m.index (m.stored instruction)) := by
  have asks := (Instruction.decode_eq_some_iff _ _).mp decoded
  have overlooks :
      instruction.usesMemory = false →
        instruction.Overlooks { memory := fun _ => memory } := by
    intro unused
    constructor <;> simp [unused]
  -- The four instructions that use the memory are settled one by one; the others
  -- overlook that there is another memory.
  cases instruction with
  | draw x y height =>
      obtain ⟨family, rfl, rfl, rfl⟩ := asks
      rw [readSpan, if_pos family] at sameData
      have sameRows := Memory.window_congr sameData
      have rows :
          memory.window m.fetch.index m.nextWord.lowNibble.toNat =
            m.fetch.memory.window m.fetch.index
              m.nextWord.lowNibble.toNat := sameRows
      simp only [execute, Machine.draw, Except.map, withMemory, rows]
      rfl
  | loadRegisters last =>
      obtain ⟨family, low, rfl⟩ := asks
      have noDraw : m.nextWord.family ≠ 0xD := by rw [family]; decide
      rw [readSpan, if_neg noDraw, if_pos ⟨family, low⟩] at sameData
      have sameBytes := Memory.window_congr sameData
      have bytes :
          memory.window m.fetch.index (m.nextWord.x.toNat + 1) =
            m.fetch.memory.window m.fetch.index
              (m.nextWord.x.toNat + 1) := sameBytes
      simp only [execute, Except.map, withMemory, bytes]
      rfl
  | storeDecimal x | saveRegisters last =>
      rfl
  | _ =>
      exact m.fetch.execute_changed (overlooks rfl)

theorem advance_withMemory
    (sameBytes : ∀ c ∈ m.reads .cycle, memory.read c = m.memory.read c) :
    (m.withMemory memory).advance =
      { m.advance with
        machine := m.advance.machine.withMemory
          (memory.store m.index m.storedNext) } := by
  simp only [reads, List.mem_cons, forall_eq_or_imp] at sameBytes
  obtain ⟨sameHigh, sameLow, sameData⟩ := sameBytes
  have sameWord : (m.withMemory memory).nextWord = m.nextWord := by
    change Word.ofBytes (memory.read m.pc) (memory.read (m.pc + 1)) = _
    rw [sameHigh, sameLow]
    rfl
  have sameFetch :
      (m.withMemory memory).fetch = m.fetch.withMemory memory := by
    simp only [fetch, sameWord]
    rfl
  apply advance_map
    (fun next => next.withMemory (memory.store m.index m.storedNext))
    sameWord rfl (fun _ => rfl)
  -- Only a return or a call is refused, and neither stores anything.
  · intro refused
    rw [sameFetch, storedNext_of_refused refused]
    rfl
  · intro instruction decoded
    have storedAlike : m.storedNext = m.stored instruction := by
      rw [storedNext, decoded]
    rw [sameFetch, storedAlike]
    exact execute_withMemory decoded sameData

/-- An operation comes to the same with another memory that holds the same bytes
where it reads. -/
theorem apply_withMemory
    {operation : Operation}
    (sameBytes : ∀ c ∈ m.reads operation,
      memory.read c = m.memory.read c) :
    ((m.withMemory memory).apply operation).machine =
        (m.apply operation).machine.withMemory
          (m.remember operation memory) ∧
      ((m.withMemory memory).apply operation).reply =
        (m.apply operation).reply := by
  cases operation with
  | cycle =>
      have advanced := advance_withMemory sameBytes
      exact ⟨congrArg Outcome.machine advanced,
        by simp only [apply, reply_cycle, advanced]⟩
  | load program =>
      simp only [apply, load, remember]
      split <;> exact ⟨rfl, rfl⟩
  | _ => exact ⟨rfl, rfl⟩

theorem memory_apply (m : Machine) (operation : Operation) :
    (m.apply operation).machine.memory =
      m.remember operation m.memory := by
  have own := @apply_withMemory m m.memory operation fun _ _ => rfl
  exact congrArg Machine.memory own.1

/-- An operation makes the same of two memories where it writes, and wherever
they agree. -/
theorem read_remember_congr
    {left right : Memory} {operation : Operation} {c : Address}
    (same : c ∉ m.writes operation → left.read c = right.read c) :
    (m.remember operation left).read c =
      (m.remember operation right).read c := by
  cases operation with
  | cycle =>
      rw [writes, writeSpan_eq] at same
      have short := m.length_storedNext_le
      exact Memory.read_store_congr (by omega) same
  | load program =>
      simp only [remember, writes] at same ⊢
      split at same
      · rename_i fits
        have short : program.length ≤ 3584 := fits
        rw [if_pos fits, if_pos fits]
        exact Memory.read_store_congr (by omega) same
      · rename_i tooLarge
        rw [if_neg tooLarge, if_neg tooLarge]
        exact same List.not_mem_nil
  | reset =>
      rw [writes, ← Font.length_bytes] at same
      simp only [remember]
      exact Memory.read_store_congr (by decide) same
  | clear =>
      simp only [remember]
  | _ =>
      exact same List.not_mem_nil

end Machine

end ChipEight

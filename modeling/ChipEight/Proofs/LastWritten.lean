import ChipEight.Proofs.Footprint
import ChipEight.Proofs.History
import ChipEight.Proofs.Refusal

/-!
# What stands in the memory

Five kinds of events put bytes into the memory: switching on or clearing,
starting again, loading a program, and the two instructions that store decimal
digits and registers.  After any history, every byte is the one that the latest
of these events at its address has put there.
-/

namespace ChipEight

/-- Something that puts bytes into the memory.  Switching on and clearing leave
zeros everywhere but in the font. -/
inductive MemoryEvent
  | cleared
  | restarted
  | loaded (program : List Byte) (fits : program.length ≤ Machine.programLimit)
  | wroteDecimal (start : Address) (value : Byte)
  | saved (start : Address) (registers : Registers) (last : Nibble)

namespace MemoryEvent

/-- An event puts a byte at an address. -/
def Puts (event : MemoryEvent) (a : Address) (b : Byte) : Prop :=
  match event with
  | cleared | restarted => Font.bytes[a.toNat]? = some b
  | loaded program _ => 0x200 ≤ a.toNat ∧ program[a.toNat - 0x200]? = some b
  | wroteDecimal start value =>
    ∃ h ≤ 9, ∃ t ≤ 9, ∃ u ≤ 9, 100 * h + 10 * t + u = value.toNat ∧
      (a = start ∧ b.toNat = h ∨ a = start + 1 ∧ b.toNat = t ∨
        a = start + 2 ∧ b.toNat = u)
  | saved start registers last =>
    ∃ k ≤ last.toNat, a = start + BitVec.ofNat 12 k ∧
      b = registers.get (BitVec.ofNat 4 k)

def PutsNothing (event : MemoryEvent) (a : Address) : Prop :=
  ∀ b, ¬event.Puts a b

/-! ## Events as runs of bytes -/

/-- The address from which an event puts its bytes. -/
def start : MemoryEvent → Address
  | cleared | restarted => 0
  | loaded _ _ => Machine.programStart
  | wroteDecimal start _ | saved start _ _ => start

/-- The bytes that an event puts from its start upwards. -/
def bytes : MemoryEvent → List Byte
  | cleared | restarted => Font.bytes
  | loaded program _ => program
  | wroteDecimal _ value => Machine.decimalDigits value
  | saved _ registers last => registers.upTo last

theorem length_bytes_le (event : MemoryEvent) :
    event.bytes.length ≤ 4096 := by
  cases event with
  | cleared | restarted =>
      exact Nat.le_of_ble_eq_true rfl
  | loaded program fits =>
      exact Nat.le_trans fits (Nat.le_of_ble_eq_true rfl)
  | wroteDecimal start value =>
      exact Nat.le_of_ble_eq_true rfl
  | saved start registers last =>
      have bounded := last.toNat_lt_sixteen
      rw [bytes, Registers.length_upTo]
      omega

theorem puts_loaded_iff
    {program : List Byte} (fits : program.length ≤ Machine.programLimit)
    (a : Address) (b : Byte) :
    (loaded program fits).Puts a b ↔
      program[(a - Machine.programStart).toNat]? = some b := by
  have bounded := a.toNat_lt_size
  have short : program.length ≤ 3584 := fits
  have distance :
      (a - Machine.programStart).toNat = (3584 + a.toNat) % 4096 := by
    rw [BitVec.toNat_sub]
    rfl
  rw [distance]
  by_cases inProgramSpace : 0x200 ≤ a.toNat
  · have sameDistance : (3584 + a.toNat) % 4096 = a.toNat - 0x200 := by
      omega
    simp only [Puts, inProgramSpace, true_and, sameDistance]
  -- Below the program space the distance from its start is past every program.
  · have beyond : program.length ≤ (3584 + a.toNat) % 4096 := by
      omega
    simp [Puts, inProgramSpace, List.getElem?_eq_none beyond]

theorem puts_wroteDecimal_iff (start : Address) (value : Byte)
    (a : Address) (b : Byte) :
    (wroteDecimal start value).Puts a b ↔
      (Machine.decimalDigits value)[(a - start).toNat]? = some b := by
  have bounded := value.isLt
  have hundreds : (value / 100).toNat = value.toNat / 100 :=
    BitVec.toNat_udiv
  have tens : (value / 10 % 10).toNat = value.toNat / 10 % 10 := by
    rw [BitVec.toNat_umod, BitVec.toNat_udiv]
    rfl
  have units : (value % 10).toNat = value.toNat % 10 := BitVec.toNat_umod
  have byPlace :
      (Machine.decimalDigits value)[(a - start).toNat]? = some b ↔
        (a = start ∧ b = value / 100 ∨ a = start + 1 ∧ b = value / 10 % 10 ∨
          a = start + 2 ∧ b = value % 10) := by
    have first := Address.toNat_sub_eq_iff a start (n := 0) (by decide)
    have second := Address.toNat_sub_eq_iff a start (n := 1) (by decide)
    have third := Address.toNat_sub_eq_iff a start (n := 2) (by decide)
    rw [BitVec.add_zero] at first
    rw [← first, show (1 : Address) = BitVec.ofNat 12 1 from rfl, ← second,
      show (2 : Address) = BitVec.ofNat 12 2 from rfl, ← third]
    simp only [Machine.decimalDigits]
    rcases (a - start).toNat with _ | _ | _ | n <;> simp [eq_comm]
  rw [byPlace]
  constructor
  · rintro ⟨h, _, t, _, u, _, sum, ⟨here, digit⟩ | ⟨here, digit⟩ |
      ⟨here, digit⟩⟩
    · exact Or.inl ⟨here, BitVec.eq_of_toNat_eq (by omega)⟩
    · exact Or.inr <| Or.inl ⟨here, BitVec.eq_of_toNat_eq (by omega)⟩
    · exact Or.inr <| Or.inr ⟨here, BitVec.eq_of_toNat_eq (by omega)⟩
  · intro atPlace
    refine ⟨value.toNat / 100, by omega, value.toNat / 10 % 10, by omega,
      value.toNat % 10, by omega, by omega, ?_⟩
    rw [← hundreds, ← tens, ← units]
    simp only [BitVec.toNat_inj]
    exact atPlace

theorem puts_saved_iff (start : Address) (registers : Registers)
    (last : Nibble) (a : Address) (b : Byte) :
    (saved start registers last).Puts a b ↔
      (registers.upTo last)[(a - start).toNat]? = some b := by
  have bounded := last.toNat_lt_sixteen
  rw [Registers.getElem?_upTo_eq_some_iff]
  constructor
  · rintro ⟨k, inRun, here, rfl⟩
    rw [(Address.toNat_sub_eq_iff a start (by omega)).mpr here]
    exact ⟨inRun, rfl⟩
  · rintro ⟨inRun, rfl⟩
    exact ⟨(a - start).toNat, inRun,
      (Address.toNat_sub_eq_iff a start (a - start).isLt).mp rfl, rfl⟩

/-- What an event puts, told by the distance from its start. -/
theorem puts_iff (event : MemoryEvent) (a : Address) (b : Byte) :
    event.Puts a b ↔ event.bytes[(a - event.start).toNat]? = some b := by
  cases event with
  | cleared | restarted =>
      have fromZero : a - 0 = a := BitVec.sub_zero a
      rw [start, fromZero]
      rfl
  | loaded program fits =>
      exact puts_loaded_iff fits a b
  | wroteDecimal start value =>
      exact puts_wroteDecimal_iff start value a b
  | saved start registers last =>
      exact puts_saved_iff start registers last a b

/-! ## The memory after an event -/

/-- The memory of which an event keeps the bytes where it puts nothing. -/
def kept (event : MemoryEvent) (memory : Memory) : Memory :=
  match event with
  | cleared => .zero
  | _ => memory

/-- The memory that an event leaves of a memory before it. -/
def change (event : MemoryEvent) (memory : Memory) : Memory :=
  (event.kept memory).store event.start event.bytes

theorem read_change_iff
    (event : MemoryEvent) (memory : Memory) (a : Address) (b : Byte) :
    (event.change memory).read a = b ↔
      event.Puts a b ∨
        event.PutsNothing a ∧ (event.kept memory).read a = b := by
  rw [change, Memory.read_store _ _ _ _ event.length_bytes_le]
  simp only [PutsNothing, puts_iff]
  cases event.bytes[(a - event.start).toNat]? <;> simp

/-! ## The latest event at an address -/

/-- A byte is what the latest of some events at an address has put there, or zero
if none of them puts anything there. -/
def LastPut (events : List MemoryEvent) (a : Address) (b : Byte) : Prop :=
  (∃ earlier event later, events = earlier ++ event :: later ∧
    event.Puts a b ∧ ∀ other ∈ later, other.PutsNothing a) ∨
    (∀ event ∈ events, event.PutsNothing a) ∧ b = 0

theorem lastPut_nil_iff (a : Address) (b : Byte) : LastPut [] a b ↔ 0 = b := by
  simp only [LastPut, List.nil_eq, List.append_eq_nil_iff, reduceCtorEq,
    and_false, false_and, exists_false, List.not_mem_nil, false_implies,
    implies_true, true_and, false_or]
  exact eq_comm

theorem lastPut_concat_iff
    (events : List MemoryEvent) (event : MemoryEvent) (a : Address) (b : Byte) :
    LastPut (events ++ [event]) a b ↔
      event.Puts a b ∨ event.PutsNothing a ∧ LastPut events a b := by
  constructor
  · rintro (⟨earlier, latest, later, cut, puts, silent⟩ | ⟨silent, isZero⟩)
    · rcases List.eq_nil_or_concat later with rfl | ⟨between, last, rfl⟩
      · obtain ⟨_, same⟩ := List.append_inj' cut rfl
        cases same
        exact Or.inl puts
      · rw [List.concat_eq_append] at cut silent
        rw [← List.cons_append, ← List.append_assoc] at cut
        obtain ⟨sameEvents, same⟩ := List.append_inj' cut rfl
        cases same
        refine Or.inr ⟨silent event (by simp), Or.inl ?_⟩
        exact ⟨earlier, latest, between, sameEvents, puts,
          fun other among => silent other (by simp [among])⟩
    · refine Or.inr ⟨silent event (by simp), Or.inr ⟨?_, isZero⟩⟩
      exact fun other among => silent other (by simp [among])
  · rintro (puts | ⟨silentLast, ⟨earlier, latest, later, rfl, puts, silent⟩ |
      ⟨silent, isZero⟩⟩)
    · exact Or.inl ⟨events, event, [], rfl, puts, by simp⟩
    · refine Or.inl ⟨earlier, latest, later ++ [event], by simp, puts, ?_⟩
      simpa [or_imp, forall_and] using ⟨silent, silentLast⟩
    · refine Or.inr ⟨?_, isZero⟩
      simpa [or_imp, forall_and] using ⟨silent, silentLast⟩

/-- A memory holds what the events since the latest clearing have put there. -/
def Holds (events : List MemoryEvent) (memory : Memory) : Prop :=
  ∃ earlier recent, events = earlier ++ .cleared :: recent ∧
    .cleared ∉ recent ∧
    ∀ a b, memory.read a = b ↔ LastPut (.cleared :: recent) a b

theorem holds_cleared (earlier : List MemoryEvent) (memory : Memory) :
    Holds (earlier ++ [cleared]) (cleared.change memory) := by
  refine ⟨earlier, [], rfl, List.not_mem_nil, ?_⟩
  intro a b
  rw [read_change_iff, ← List.nil_append [cleared], lastPut_concat_iff,
    lastPut_nil_iff]
  simp [kept]

theorem holds_change
    {events : List MemoryEvent} {memory : Memory}
    (holds : Holds events memory) (event : MemoryEvent) :
    Holds (events ++ [event]) (event.change memory) := by
  by_cases clears : event = cleared
  · subst clears
    exact holds_cleared events memory
  · obtain ⟨earlier, recent, rfl, sinceThen, recalls⟩ := holds
    refine ⟨earlier, recent ++ [event], by simp, ?_, ?_⟩
    · simpa [sinceThen] using Ne.symm clears
    · intro a b
      have stays : event.kept memory = memory := by
        cases event <;> first | rfl | exact absurd rfl clears
      rw [read_change_iff, stays, recalls, ← List.cons_append,
        lastPut_concat_iff]

end MemoryEvent

namespace Machine

open MemoryEvent

/-! ## The events of a history -/

/-- The event that an operation is, if it puts anything into the memory. -/
def memoryEvent (m : Machine) (operation : Operation) : Option MemoryEvent :=
  match operation with
  | .load program =>
    if fits : program.length ≤ programLimit then some (.loaded program fits)
    else none
  | .cycle =>
    let w := m.nextWord
    if w.family = 0xF ∧ w.lowByte = 0x33 then
      some (.wroteDecimal m.index (m.v w.x))
    else if w.family = 0xF ∧ w.lowByte = 0x55 then
      some (.saved m.index m.registers w.x)
    else none
  | .reset => some .restarted
  | .clear => some .cleared
  | _ => none

/-- The events of a history, in order. -/
def memoryEvents (m : Machine) : List Operation → List MemoryEvent
  | [] => []
  | operation :: rest =>
    (m.memoryEvent operation).toList ++
      (m.apply operation).machine.memoryEvents rest

/-- An operation makes of the memory what its event makes of it, and leaves it
alone if it is no event. -/
theorem memory_apply_eq (m : Machine) (operation : Operation) :
    (m.apply operation).machine.memory =
      (m.memoryEvent operation).elim m.memory fun event =>
        event.change m.memory := by
  rw [memory_apply]
  cases operation with
  | load program =>
      by_cases fits : program.length ≤ programLimit
      · simp only [memoryEvent, remember, dif_pos fits, if_pos fits]
        rfl
      · simp only [memoryEvent, remember, dif_neg fits, if_neg fits]
        rfl
  | cycle =>
      by_cases isDecimal :
          m.nextWord.family = 0xF ∧ m.nextWord.lowByte = 0x33
      · simp only [memoryEvent, remember, if_pos isDecimal,
          storedNext_of_decimal isDecimal]
        rfl
      by_cases isSave : m.nextWord.family = 0xF ∧ m.nextWord.lowByte = 0x55
      · simp only [memoryEvent, remember, if_neg isDecimal, if_pos isSave,
          storedNext_of_save isSave]
        rfl
      simp only [memoryEvent, remember, if_neg isDecimal, if_neg isSave,
        storedNext_of_neither isDecimal isSave]
      rfl
  | reset | clear =>
      simp only [memoryEvent, remember, Option.elim_some, change, kept, start,
        bytes]
  | _ => rfl

theorem holds_after
    {m : Machine} {events : List MemoryEvent} (holds : Holds events m.memory)
    (history : List Operation) :
    Holds (events ++ m.memoryEvents history) (m.after history).memory := by
  induction history generalizing m events with
  | nil =>
      simpa [memoryEvents] using holds
  | cons operation rest inductionHypothesis =>
      rw [memoryEvents, ← List.append_assoc, after_cons]
      apply inductionHypothesis
      rw [memory_apply_eq]
      cases m.memoryEvent operation with
      | none =>
          simpa using holds
      | some event =>
          exact holds_change holds event

/-- An operation that is refused leaves the memory alone. -/
theorem memory_apply_of_refused
    {m : Machine} {operation : Operation} {fault : Fault}
    (refused : (m.apply operation).reply = .refused fault) :
    (m.apply operation).machine.memory = m.memory := by
  rcases machine_apply_of_refused refused with unchanged | onlyFetched
  · rw [unchanged]
  · rw [onlyFetched]
    rfl

theorem read_load_below
    (m : Machine) (program : List Byte) {a : Address}
    (below : a.toNat < 0x200) :
    (m.load program).machine.memory.read a = m.memory.read a := by
  change (m.apply (.load program)).machine.memory.read a = _
  rw [memory_apply_eq]
  by_cases fits : program.length ≤ programLimit
  · have isEvent : m.memoryEvent (.load program) = some (.loaded program fits) :=
      dif_pos fits
    have putsNothing : (loaded program fits).PutsNothing a := by
      intro b puts
      exact absurd puts.1 (Nat.not_le.mpr below)
    rw [isEvent, Option.elim_some]
    exact (read_change_iff _ _ _ _).mpr (Or.inr ⟨putsNothing, rfl⟩)
  · have noEvent : m.memoryEvent (.load program) = none := dif_neg fits
    rw [noEvent]
    rfl

/-- After any history from switching on, the bytes in the memory are those that
the latest event at their address has put there since the latest clearing, and
zero where there is none.  An operation that is no event changes no byte, nor does
one that is refused, and no program reaches below the place of programs. -/
theorem memory_holds_last_put
    (settings : Settings) (entropy : ChaCha.Key) (history : List Operation) :
    let events := .cleared :: (powerOn settings entropy).memoryEvents history
    let m := (powerOn settings entropy).after history
    (∃ earlier recent, events = earlier ++ .cleared :: recent ∧
      .cleared ∉ recent ∧
      ∀ a b, m.memory.read a = b ↔ LastPut (.cleared :: recent) a b) ∧
    (∀ operation, m.memoryEvent operation = none →
      (m.apply operation).machine.memory = m.memory) ∧
    (∀ operation fault, (m.apply operation).reply = .refused fault →
      (m.apply operation).machine.memory = m.memory) ∧
    ∀ (program : List Byte) (a : Address), a.toNat < 0x200 →
      (m.load program).machine.memory.read a = m.memory.read a := by
  intro events m
  have atFirst : Holds [.cleared] (powerOn settings entropy).memory := by
    have switchedOn :
        (powerOn settings entropy).memory = cleared.change Memory.zero := by
      simp only [powerOn, change, kept, start, bytes]
    rw [switchedOn]
    exact holds_cleared [] Memory.zero
  refine ⟨holds_after atFirst history, ?_, ?_, ?_⟩
  · intro operation noEvent
    rw [memory_apply_eq, noEvent]
    rfl
  · intro operation fault
    exact memory_apply_of_refused
  · intro program a
    exact m.read_load_below program

end Machine

end ChipEight

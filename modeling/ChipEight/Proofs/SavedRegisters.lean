import ChipEight.Proofs.Footprint
import ChipEight.Proofs.History

/-!
# Registers kept in memory

A program saves its first registers in memory and loads them back later.  What is
stored as a run is read back as that run, also where it wraps around the end of the
memory, and storing what is already there changes nothing.  So the two instructions
undo each other, in either order, and neither of them moves the index.
-/

namespace ChipEight

/-! ## Storing and reading a run -/

namespace Memory

theorem window_store
    (memory : Memory) (a : Address) {bytes : List Byte}
    (fits : bytes.length ≤ 4096) :
    (memory.store a bytes).window a bytes.length = bytes := by
  apply List.ext_getElem?
  intro k
  rw [getElem?_window]
  by_cases inside : k < bytes.length
  · have there : (a + BitVec.ofNat 12 k - a).toNat = k :=
      (Address.toNat_sub_eq_iff _ a (by omega)).mpr rfl
    rw [if_pos inside, read_store _ _ _ _ fits, there,
      List.getElem?_eq_getElem inside, Option.getD_some]
  · rw [if_neg inside, List.getElem?_eq_none (Nat.not_lt.mp inside)]

/-- Storing what is already there changes nothing. -/
theorem store_window
    (memory : Memory) (a : Address) {count : Nat} (fits : count ≤ 4096) :
    memory.store a (memory.window a count) = memory := by
  apply ext
  intro c
  have short : (memory.window a count).length ≤ 4096 := by
    rwa [length_window]
  have there : c = a + BitVec.ofNat 12 (c - a).toNat :=
    (Address.toNat_sub_eq_iff c a (c - a).isLt).mp rfl
  rw [read_store _ _ _ _ short, getElem?_window]
  split
  · rw [← there, Option.getD_some]
  · rfl

end Memory

namespace Registers

/-- Registers filled with what others held hold the same up to the last of them. -/
theorem get_fill_upTo
    (registers saved : Registers) (last r : Nibble) :
    (registers.fill (saved.upTo last)).get r =
      if r ≤ last then saved.get r else registers.get r := by
  split
  · rename_i inside
    have isSaved : (saved.upTo last)[r.toNat]? = some (saved.get r) :=
      (saved.getElem?_upTo_eq_some_iff last _ _).mpr ⟨inside, by simp⟩
    rw [get_fill, List.getD, isSaved, Option.getD_some]
  · rename_i outside
    apply get_fill_of_length_le
    rw [length_upTo]
    exact BitVec.not_le.mp outside

theorem upTo_fill
    (registers : Registers) {bytes : List Byte} {last : Nibble}
    (fits : bytes.length = last.toNat + 1) :
    (registers.fill bytes).upTo last = bytes := by
  have bounded := last.toNat_lt_sixteen
  apply List.ext_getElem?
  intro n
  by_cases inside : n < bytes.length
  · have number : (BitVec.ofNat 4 n).toNat = n := by
      rw [BitVec.toNat_ofNat, Nat.mod_eq_of_lt (by omega)]
    rw [List.getElem?_eq_getElem inside]
    apply (getElem?_upTo_eq_some_iff _ last n _).mpr
    refine ⟨by omega, ?_⟩
    rw [get_fill, number, List.getD, List.getElem?_eq_getElem inside,
      Option.getD_some]
  · have beyond := Nat.not_lt.mp inside
    rw [List.getElem?_eq_none beyond, List.getElem?_eq_none]
    rwa [length_upTo, ← fits]

end Registers

namespace Machine

/-! ## Saving and loading -/

variable {m : Machine} {last : Nibble}

theorem cycle_of_save
    (saves : m.nextWord.AsksFor (.saveRegisters last)) :
    m.cycle.machine =
      { m.fetch with
        memory := m.memory.store m.index (m.registers.upTo last) } := by
  rw [machine_cycle, advance_of_asksFor saves rfl]
  rfl

theorem cycle_of_load
    (loads : m.nextWord.AsksFor (.loadRegisters last)) :
    m.cycle.machine =
      { m.fetch with
        registers := m.registers.fill
          (m.memory.window m.index (last.toNat + 1)) } := by
  rw [machine_cycle, advance_of_asksFor loads rfl]
  rfl

theorem index_cycle_of_save
    (saves : m.nextWord.AsksFor (.saveRegisters last)) :
    m.cycle.machine.index = m.index := by
  rw [cycle_of_save saves]
  rfl

theorem index_cycle_of_load
    (loads : m.nextWord.AsksFor (.loadRegisters last)) :
    m.cycle.machine.index = m.index := by
  rw [cycle_of_load loads]
  rfl

/-- What was saved is what is read, as long as the bytes are still in place. -/
theorem window_of_save
    (saves : m.nextWord.AsksFor (.saveRegisters last)) {memory : Memory}
    (inPlace : ∀ k ≤ last.toNat,
      memory.read (m.index + BitVec.ofNat 12 k) =
        m.cycle.machine.memory.read (m.index + BitVec.ofNat 12 k)) :
    memory.window m.index (last.toNat + 1) = m.registers.upTo last := by
  have bounded := last.toNat_lt_sixteen
  have length : (m.registers.upTo last).length = last.toNat + 1 :=
    m.registers.length_upTo last
  have stored :
      m.cycle.machine.memory.window m.index (last.toNat + 1) =
        m.registers.upTo last := by
    rw [cycle_of_save saves, ← length]
    exact m.memory.window_store m.index (by omega)
  rw [← stored]
  apply Memory.window_congr
  intro c inSpan
  obtain ⟨k, inRun, rfl⟩ := List.mem_map.mp inSpan
  exact inPlace k (Nat.le_of_lt_succ (List.mem_range.mp inRun))

/-- Registers that a program has saved are loaded back by the same number of them,
whatever happens in between, if the index and the bytes it points at are the same
again.  Loading and saving at once leaves the memory as it is. -/
theorem save_and_load_undo (m : Machine) (last : Nibble) :
    (m.nextWord.AsksFor (.saveRegisters last) →
      ∀ between : List Operation,
        let saved := m.cycle.machine
        let before := saved.after between
        let loaded := before.cycle.machine
        before.nextWord.AsksFor (.loadRegisters last) →
        before.index = saved.index →
        (∀ k ≤ last.toNat,
          before.memory.read (saved.index + BitVec.ofNat 12 k) =
            saved.memory.read (saved.index + BitVec.ofNat 12 k)) →
        (∀ r ≤ last, loaded.v r = m.v r) ∧
          (∀ r, last < r → loaded.v r = before.v r) ∧
          saved.index = m.index ∧ loaded.index = before.index) ∧
      (m.nextWord.AsksFor (.loadRegisters last) →
        let loaded := m.cycle.machine
        loaded.nextWord.AsksFor (.saveRegisters last) →
        let saved := loaded.cycle.machine
        saved.memory = m.memory ∧
          loaded.index = m.index ∧ saved.index = m.index) := by
  constructor
  · intro saves between saved before loaded loads sameIndex inPlace
    have indexKept : saved.index = m.index := index_cycle_of_save saves
    rw [indexKept] at sameIndex inPlace
    have filled :
        loaded.registers =
          before.registers.fill (m.registers.upTo last) := by
      change before.cycle.machine.registers = _
      rw [cycle_of_load loads, sameIndex, window_of_save saves inPlace]
    refine ⟨?_, ?_, indexKept, index_cycle_of_load loads⟩
    · intro r inside
      rw [v, filled, Registers.get_fill_upTo, if_pos inside]
      rfl
    · intro r outside
      rw [v, filled, Registers.get_fill_upTo,
        if_neg (BitVec.not_le.mpr outside)]
      rfl
  · intro loads loaded saves saved
    have bounded := last.toNat_lt_sixteen
    have indexKept : loaded.index = m.index := index_cycle_of_load loads
    have bytes :
        loaded.registers.upTo last =
          m.memory.window m.index (last.toNat + 1) := by
      change m.cycle.machine.registers.upTo last = _
      rw [cycle_of_load loads]
      exact Registers.upTo_fill _ (Memory.length_window _ _ _)
    have memoryKept : loaded.memory = m.memory := by
      change m.cycle.machine.memory = _
      rw [cycle_of_load loads]
      rfl
    refine ⟨?_, indexKept, (index_cycle_of_save saves).trans indexKept⟩
    change loaded.cycle.machine.memory = _
    rw [cycle_of_save saves, bytes, memoryKept, indexKept]
    exact m.memory.store_window m.index (by omega)

theorem memory_after_of_stores_nothing
    (storesNothing : m.storedNext = []) :
    (m.after [.cycle]).memory = m.memory := by
  rw [after_cons, after_nil, memory_apply, remember, storesNothing,
    Memory.store]

/-- A machine about to save four registers around the end of the memory, to change
one of them, to load them back and to save them again. -/
def savingAround : Machine :=
  { powerOn {} (Vector.replicate 8 0) with
    memory := Memory.zero.store programStart
      [0xF3, 0x55, 0x60, 0x07, 0xF3, 0x65, 0xF3, 0x55]
    registers := Registers.zero.fill [11, 22, 33, 44, 55]
    index := 0xFFE }

theorem savingAround_loaded :
    let changed := savingAround.cycle.machine.after [.cycle]
    let loaded := changed.cycle.machine
    changed.v 0 = 7 ∧ changed.memory.read 1 = 44 ∧
      loaded.v 0 = savingAround.v 0 ∧ loaded.v 3 = savingAround.v 3 ∧
      loaded.cycle.machine.memory = changed.memory := by
  intro changed loaded
  have saves : savingAround.nextWord.AsksFor (.saveRegisters 3) := by
    refine ⟨?_, ?_, ?_⟩ <;> decide +kernel
  have loads : changed.nextWord.AsksFor (.loadRegisters 3) := by
    refine ⟨?_, ?_, ?_⟩ <;> decide +kernel
  have savesAgain : loaded.nextWord.AsksFor (.saveRegisters 3) := by
    refine ⟨?_, ?_, ?_⟩ <;> decide +kernel
  have sameIndex : changed.index = savingAround.cycle.machine.index := by
    decide +kernel
  -- The word in between assigns a value and stores nothing.
  have storesNothing : savingAround.cycle.machine.storedNext = [] := by
    decide +kernel
  have sameMemory : changed.memory = savingAround.cycle.machine.memory :=
    memory_after_of_stores_nothing storesNothing
  obtain ⟨inside, _, _, _⟩ :=
    (save_and_load_undo savingAround 3).1 saves [.cycle] loads
      sameIndex (fun _ _ => by rw [← sameMemory])
  obtain ⟨undone, _, _⟩ :=
    (save_and_load_undo changed 3).2 loads savesAgain
  exact ⟨by decide +kernel, by decide +kernel, inside 0 (by decide),
    inside 3 (by decide), undone⟩

end Machine

end ChipEight

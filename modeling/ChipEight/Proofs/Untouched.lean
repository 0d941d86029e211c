import ChipEight.Proofs.Footprint
import ChipEight.Proofs.History
import Mathlib.Data.Set.Basic

/-!
# Memory that is not looked at

Two machines that differ only in the bytes at some addresses stay alike but for
those of the addresses that have not been written since, and they answer alike,
as long as no cycle reads at such an address.
-/

namespace ChipEight.Machine

/-- Two machines are alike but for the bytes at some addresses. -/
structure AlikeOff (addresses : Set Address) (m n : Machine) : Prop where
  rest : n = m.withMemory n.memory
  bytes : ∀ c ∉ addresses, n.memory.read c = m.memory.read c

theorem AlikeOff.registers_eq
    {addresses : Set Address} {m n : Machine}
    (alike : AlikeOff addresses m n) : n.registers = m.registers := by
  rw [alike.rest]
  rfl

/-! ## One operation -/

theorem alikeOff_apply
    {addresses : Set Address} {m n : Machine}
    (alike : AlikeOff addresses m n) {operation : Operation}
    (unread : ∀ c ∈ m.reads operation, c ∉ addresses) :
    AlikeOff {c ∈ addresses | c ∉ m.writes operation}
        (m.apply operation).machine (n.apply operation).machine ∧
      (n.apply operation).reply = (m.apply operation).reply := by
  have sameBytes : ∀ c ∈ m.reads operation,
      n.memory.read c = m.memory.read c := by
    intro c isRead
    exact alike.bytes c (unread c isRead)
  obtain ⟨sameMachine, sameReply⟩ := apply_withMemory sameBytes
  rw [← alike.rest] at sameMachine sameReply
  refine ⟨⟨?_, ?_⟩, sameReply⟩
  · rw [sameMachine]
    rfl
  · intro c outside
    rw [sameMachine, memory_apply]
    apply read_remember_congr
    intro unwritten
    apply alike.bytes
    intro inside
    exact outside ⟨inside, unwritten⟩

/-! ## Histories -/

/-- The addresses written in the course of a history. -/
def written (m : Machine) : List Operation → List Address
  | [] => []
  | operation :: rest =>
    m.writes operation ++ (m.apply operation).machine.written rest

/-- Those of some addresses that a history leaves unwritten. -/
def unwritten
    (m : Machine) (addresses : Set Address) (history : List Operation) :
    Set Address :=
  {c ∈ addresses | c ∉ m.written history}

theorem unwritten_nil (m : Machine) (addresses : Set Address) :
    m.unwritten addresses [] = addresses := by
  ext c
  simp [unwritten, written]

theorem unwritten_cons
    (m : Machine) (addresses : Set Address)
    (operation : Operation) (rest : List Operation) :
    m.unwritten addresses (operation :: rest) =
      (m.apply operation).machine.unwritten
        {c ∈ addresses | c ∉ m.writes operation} rest := by
  ext c
  simp [unwritten, written, and_assoc]

/-- No operation of a history reads at those of some addresses that have not
been written by then. -/
def LooksAway
    (m : Machine) (addresses : Set Address) (history : List Operation) :
    Prop :=
  ∀ k (inRange : k < history.length),
    ∀ c ∈ (m.after (history.take k)).reads history[k],
      c ∉ m.unwritten addresses (history.take k)

theorem looksAway_nil (m : Machine) (addresses : Set Address) :
    m.LooksAway addresses [] := by
  intro k inRange
  exact absurd inRange (Nat.not_lt_zero k)

theorem looksAway_cons_iff
    {m : Machine} {addresses : Set Address}
    {operation : Operation} {rest : List Operation} :
    m.LooksAway addresses (operation :: rest) ↔
      (∀ c ∈ m.reads operation, c ∉ addresses) ∧
        (m.apply operation).machine.LooksAway
          {c ∈ addresses | c ∉ m.writes operation} rest := by
  constructor
  · intro looksAway
    constructor
    · have first := looksAway 0 (by simp)
      rw [List.take_zero, unwritten_nil] at first
      exact first
    · intro k inRange
      have later := looksAway (k + 1) (by simpa using inRange)
      rw [List.take_succ_cons, unwritten_cons] at later
      exact later
  · rintro ⟨first, later⟩ k inRange
    cases k with
    | zero =>
        rw [List.take_zero, unwritten_nil]
        exact first
    | succ k =>
        rw [List.take_succ_cons, unwritten_cons]
        exact later k (by simpa using inRange)

/-- What a run does not look at has no influence on it: the machines stay alike
but for the bytes that have not been written since the start, and every operation
is answered alike. -/
theorem unread_memory_without_influence
    {addresses : Set Address} {m n : Machine}
    (alike : AlikeOff addresses m n) {history : List Operation}
    (looksAway : m.LooksAway addresses history) :
    (∀ k ≤ history.length,
      AlikeOff (m.unwritten addresses (history.take k))
        (m.after (history.take k)) (n.after (history.take k))) ∧
      (n.run history).replies = (m.run history).replies := by
  induction history generalizing addresses m n with
  | nil =>
      refine ⟨?_, rfl⟩
      intro k _
      rw [List.take_nil, unwritten_nil]
      exact alike
  | cons operation rest inductionHypothesis =>
      obtain ⟨unread, restLooksAway⟩ := looksAway_cons_iff.mp looksAway
      obtain ⟨nextAlike, sameReply⟩ := alikeOff_apply alike unread
      obtain ⟨restAlike, sameReplies⟩ :=
        inductionHypothesis nextAlike restLooksAway
      constructor
      · intro k inRange
        cases k with
        | zero =>
            rw [List.take_zero, unwritten_nil]
            exact alike
        | succ k =>
            rw [List.take_succ_cons, unwritten_cons]
            exact restAlike k (Nat.le_of_succ_le_succ inRange)
      · rw [run, run]
        exact congrArg₂ List.cons sameReply sameReplies

/-- A machine about to write decimal digits and to load them back into
registers. -/
def writingFirst : Machine :=
  { powerOn {} (Vector.replicate 8 0) with
    memory := Memory.zero.store programStart [0xF0, 0x33, 0xF2, 0x65]
    index := 0x300 }

/-- What was in the place of the digits cannot be told from the registers. -/
theorem writingFirst_hides_digits :
    let other := writingFirst.withMemory
      (writingFirst.memory.store 0x300 [1, 2, 3])
    let history := [.cycle, .cycle]
    (other.after history).registers =
        (writingFirst.after history).registers ∧
      (other.run history).replies = (writingFirst.run history).replies := by
  have alike :
      AlikeOff {c | c ∈ Memory.span 0x300 3} writingFirst
        (writingFirst.withMemory
          (writingFirst.memory.store 0x300 [1, 2, 3])) := by
    constructor
    · rfl
    · intro c outside
      exact Memory.read_store_of_notMem _ (by decide) outside
  have firstReads : writingFirst.reads .cycle = [0x200, 0x201] := by
    decide +kernel
  have thenReads :
      (writingFirst.apply .cycle).machine.reads .cycle =
        [0x202, 0x203, 0x300, 0x301, 0x302] := by
    decide +kernel
  have firstWrites :
      writingFirst.writes .cycle = [0x300, 0x301, 0x302] := by
    decide +kernel
  have looksAway :
      writingFirst.LooksAway {c | c ∈ Memory.span 0x300 3}
        [.cycle, .cycle] := by
    rw [looksAway_cons_iff, looksAway_cons_iff, firstReads, thenReads,
      firstWrites]
    refine ⟨?_, ?_, looksAway_nil _ _⟩ <;> simp [Memory.mem_span_iff]
  obtain ⟨stayAlike, sameReplies⟩ :=
    unread_memory_without_influence alike looksAway
  exact ⟨(stayAlike 2 (Nat.le_refl _)).registers_eq, sameReplies⟩

end ChipEight.Machine

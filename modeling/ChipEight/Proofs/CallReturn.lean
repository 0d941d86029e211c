import ChipEight.Proofs.Cycle
import ChipEight.Proofs.History

/-!
# Calls and the returns that match them

After a call that is carried out, the frames that were on the stack stay where
they are, with the address after the call on top of them, until a return takes
this address off.  Whatever is called, returned from, refused or overwritten in
between, that return goes on right after the call.
-/

namespace ChipEight.Machine

/-! ## The stack under one operation -/

/-- The word at the counter is a return. -/
def AtReturn (m : Machine) : Prop :=
  m.nextWord.family = 0 ∧ m.nextWord.lowByte = 0xEE

theorem stack_advance (m : Machine) :
    m.advance.machine.stack = m.stack ∨
      m.advance.machine.stack.toList = m.stack.toList ++ [m.pc + 2] ∨
      (m.AtReturn ∧
        m.stack.toList =
          m.advance.machine.stack.toList ++ [m.advance.machine.pc]) := by
  rcases m.machine_advance_cases with
    onlyFetched | ⟨instruction, asks, executed⟩
  · left
    rw [onlyFetched]
    rfl
  · rcases stack_of_executed executed with
      kept | ⟨target, _, pushed⟩ | ⟨rfl, popped⟩
    · exact Or.inl kept
    · exact Or.inr <| Or.inl (CallStack.push?_eq_some_iff.mp pushed).2
    · exact Or.inr <| Or.inr
        ⟨asks, CallStack.pop?_eq_some_iff.mp popped⟩

/-- The cycle of a call that has room pushes the address after the call. -/
theorem stack_advance_of_call
    {m : Machine} (isCall : m.nextWord.family = 2)
    (room : m.stack.depth < CallStack.capacity) :
    m.advance.machine.stack.toList = m.stack.toList ++ [m.pc + 2] := by
  have decoded :
      Instruction.decode m.nextWord = some (.call m.nextWord.target) :=
    (Instruction.decode_eq_call_iff _ _).mpr ⟨isCall, rfl⟩
  cases pushed : m.fetch.stack.push? m.fetch.pc with
  | none =>
      have isFull : m.stack.depth = CallStack.capacity :=
        CallStack.push?_eq_none_iff.mp pushed
      omega
  | some stack =>
      have executed :
          m.fetch.execute (.call m.nextWord.target) =
            .ok { m.fetch with pc := m.nextWord.target, stack := stack } := by
        simp only [execute, pushed]
      rw [advance_of_executed decoded executed]
      exact (CallStack.push?_eq_some_iff.mp pushed).2

/-! ## The frame of a call -/

/-- The frames of an earlier stack and an address on top of them are still on
the stack. -/
def HoldsFrame
    (m : Machine) (base : CallStack) (address : Address) : Prop :=
  base.toList ++ [address] <+: m.stack.toList

/-- An operation that does not start the machine again leaves the frame of a
call on the stack, unless it is the return that takes it off. -/
theorem holdsFrame_apply
    {m : Machine} {base : CallStack} {address : Address}
    (holds : m.HoldsFrame base address) {operation : Operation}
    (goesOn : operation ≠ .reset ∧ operation ≠ .clear) :
    (m.apply operation).machine.HoldsFrame base address ∨
      (operation = .cycle ∧ m.AtReturn ∧
        (m.apply operation).machine.stack = base ∧
        (m.apply operation).machine.pc = address) := by
  cases operation with
  | cycle =>
      change m.advance.machine.HoldsFrame base address ∨
        (_ ∧ _ ∧ m.advance.machine.stack = base ∧
          m.advance.machine.pc = address)
      rcases m.stack_advance with kept | pushed | ⟨atReturn, popped⟩
      · left
        rw [HoldsFrame, kept]
        exact holds
      · left
        rw [HoldsFrame, pushed]
        exact holds.trans (List.prefix_append _ _)
      · rw [HoldsFrame, popped, List.prefix_concat_iff] at holds
        rcases holds with taken | below
        · obtain ⟨sameStack, sameAddress⟩ := List.append_inj' taken rfl
          right
          exact ⟨rfl, atReturn, CallStack.ext sameStack.symm,
            (List.cons.inj sameAddress).1.symm⟩
        · exact Or.inl below
  | reset =>
      exact absurd rfl goesOn.1
  | clear =>
      exact absurd rfl goesOn.2
  | load program =>
      left
      simp only [apply, load]
      split <;> exact holds
  | _ =>
      exact Or.inl holds

/-- As long as the stack has not come back to its earlier depth, the frame of a
call is on it; and when it first comes back, the last operation was the return
that took the frame off. -/
theorem holdsFrame_after
    {m : Machine} {base : CallStack} {address : Address}
    (holds : m.HoldsFrame base address) {later : List Operation}
    (goesOn : ∀ operation ∈ later, operation ≠ .reset ∧ operation ≠ .clear)
    {n : Nat} (inRange : n ≤ later.length)
    (stillOpen : ∀ k < n,
      (m.after (later.take k)).stack.depth ≠ base.depth) :
    (m.after (later.take n)).HoldsFrame base address ∨
      ∃ k, n = k + 1 ∧ later[k]? = some .cycle ∧
        (m.after (later.take k)).AtReturn ∧
        (m.after (later.take n)).stack = base ∧
        (m.after (later.take n)).pc = address := by
  induction n with
  | zero =>
      exact Or.inl holds
  | succ n inductionHypothesis =>
      have nextInRange : n < later.length := inRange
      have holdsBefore :
          (m.after (later.take n)).HoldsFrame base address := by
        rcases inductionHypothesis (Nat.le_of_lt nextInRange)
            (fun k earlier => stillOpen k (by omega)) with
          held | ⟨_, _, _, _, cameBack, _⟩
        · exact held
        · exact absurd (congrArg CallStack.depth cameBack)
            (stillOpen n (by omega))
      rw [m.after_take_succ nextInRange]
      rcases holdsFrame_apply holdsBefore
          (goesOn _ (List.getElem_mem nextInRange)) with
        held | ⟨isCycle, atReturn, sameStack, sameAddress⟩
      · exact Or.inl held
      · right
        refine ⟨n, rfl, ?_, atReturn, sameStack, sameAddress⟩
        rw [List.getElem?_eq_getElem nextInRange, isCycle]

/-! ## Matching -/

/-- The machine after a cycle and some of the operations that follow it. -/
def sinceCycle (m : Machine) (later : List Operation) (n : Nat) : Machine :=
  m.after (.cycle :: later.take n)

/-- The stack first comes back to the depth it had before a call by a return,
which restores the stack as it was and goes on right after the call; until then
the stack begins with what it was and the address after the call. -/
theorem first_return_matches_call
    {m : Machine} {later : List Operation}
    (isCall : m.nextWord.family = 2)
    (room : m.stack.depth < CallStack.capacity)
    (goesOn : ∀ operation ∈ later, operation ≠ .reset ∧ operation ≠ .clear)
    {n : Nat} (inRange : n ≤ later.length)
    (notBefore : ∀ k < n,
      (m.sinceCycle later k).stack.depth ≠ m.stack.depth) :
    ((m.sinceCycle later n).stack.depth = m.stack.depth →
      (m.sinceCycle later n).pc = m.pc + 2 ∧
        (m.sinceCycle later n).stack = m.stack ∧
        ∃ k, n = k + 1 ∧ later[k]? = some .cycle ∧
          (m.sinceCycle later k).AtReturn) ∧
      ((m.sinceCycle later n).stack.depth ≠ m.stack.depth →
        m.stack.toList ++ [m.pc + 2] <+:
          (m.sinceCycle later n).stack.toList) := by
  have opened :
      m.advance.machine.HoldsFrame m.stack (m.pc + 2) := by
    have onTop := stack_advance_of_call isCall room
    rw [HoldsFrame]
    exact ⟨[], by rw [List.append_nil, onTop]⟩
  rcases holdsFrame_after opened goesOn inRange notBefore with
    held | ⟨k, isNext, isCycle, atReturn, sameStack, sameAddress⟩
  · constructor
    · intro cameBack
      have longer := held.length_le
      rw [List.length_append, CallStack.length_toList,
        CallStack.length_toList, List.length_singleton] at longer
      have deeper : m.stack.depth + 1 ≤
          (m.sinceCycle later n).stack.depth := longer
      omega
    · intro _
      exact held
  · constructor
    · intro _
      exact ⟨sameAddress, sameStack, k, isNext, isCycle, atReturn⟩
    · intro stillDeeper
      exact absurd (congrArg CallStack.depth sameStack) stillDeeper

/-- A machine about to call a part that calls another: the inner call and both
returns are four cycles away. -/
def nestedCalls : Machine :=
  ((powerOn {} (Vector.replicate 8 0)).load
    [0x22, 0x04, 0x00, 0x00, 0x22, 0x08, 0x00, 0xEE, 0x00, 0xEE]).machine

def untilReturn : List Operation := [.cycle, .tick, .cycle, .cycle]

theorem nestedCalls_return :
    (nestedCalls.sinceCycle untilReturn 4).pc = nestedCalls.pc + 2 ∧
      (nestedCalls.sinceCycle untilReturn 4).stack = nestedCalls.stack ∧
      nestedCalls.stack.toList ++ [nestedCalls.pc + 2] <+:
        (nestedCalls.sinceCycle untilReturn 3).stack.toList := by
  have isCall : nestedCalls.nextWord.family = 2 := by
    decide +kernel
  have room : nestedCalls.stack.depth < CallStack.capacity := by
    decide +kernel
  have goesOn :
      ∀ operation ∈ untilReturn,
        operation ≠ .reset ∧ operation ≠ .clear := by
    decide
  have notBefore :
      ∀ k < 4, (nestedCalls.sinceCycle untilReturn k).stack.depth ≠
        nestedCalls.stack.depth := by
    decide +kernel
  have cameBack :
      (nestedCalls.sinceCycle untilReturn 4).stack.depth =
        nestedCalls.stack.depth := by
    decide +kernel
  obtain ⟨wentOn, sameStack, _⟩ :=
    (first_return_matches_call isCall room goesOn
      (show 4 ≤ untilReturn.length by decide) notBefore).1 cameBack
  have stillOpen :=
    (first_return_matches_call isCall room goesOn
      (show 3 ≤ untilReturn.length by decide)
      (fun k earlier => notBefore k (Nat.lt_succ_of_lt earlier))).2
      (notBefore 3 (by decide))
  exact ⟨wentOn, sameStack, stillOpen⟩

end ChipEight.Machine

import ChipEight.Proofs.CallReturn
import ChipEight.Proofs.NextAddress

/-!
# Why the counter stays even

Programs begin at an even address and words are two bytes long, so only a jump or
a call to an odd address makes the counter odd.  A return goes on where a call
left off: the return addresses on the stack have to be even as well for the
counter to stay so.
-/

namespace ChipEight.Machine

/-! ## Even addresses -/

/-- The counter and the return addresses on the stack are even. -/
structure OnEvenAddresses (m : Machine) : Prop where
  counter : m.pc.toNat % 2 = 0
  frames : ∀ a ∈ m.stack.toList, a.toNat % 2 = 0

/-- If the word at the counter is a jump, or a call that is not refused, it leads
to an even number. -/
structure JumpsEvenly (m : Machine) : Prop where
  jump : m.nextWord.family = 1 → m.nextWord.target.toNat % 2 = 0
  call : m.nextWord.family = 2 → m.stack.depth < 16 →
    m.nextWord.target.toNat % 2 = 0
  jumpFrom : m.nextWord.family = 0xB →
    (m.nextWord.target.toNat + (m.v 0).toNat) % 2 = 0

theorem toNat_add_two_even
    {a : Address} (even : a.toNat % 2 = 0) : (a + 2).toNat % 2 = 0 := by
  have sum : (a + 2).toNat = (a.toNat + 2) % 4096 := BitVec.toNat_add a 2
  omega

/-- A word at an even address does not reach around the end of the memory. -/
theorem fetch_inside_of_even
    {m : Machine} (even : m.pc.toNat % 2 = 0) :
    m.pc.toNat + 1 < Memory.size := by
  have bounded := m.pc.toNat_lt_size
  rw [Memory.size]
  omega

/-! ## One operation -/

theorem destination_even
    {m : Machine} {target : Nat} (even : m.OnEvenAddresses)
    (jumps : m.JumpsEvenly) (leads : m.destination? = some target) :
    target % 2 = 0 := by
  have counterEven := even.counter
  simp only [destination?] at leads
  split at leads
  case isTrue isJump =>
      cases leads
      exact jumps.jump isJump
  split at leads
  case isTrue isCall =>
      split at leads
      case isTrue room =>
          cases leads
          exact jumps.call isCall room
      case isFalse =>
          cases leads
  split at leads
  case isTrue isJumpFrom =>
      cases leads
      have sumEven := jumps.jumpFrom isJumpFrom
      omega
  split at leads
  case isTrue =>
      obtain ⟨newest, onTop, rfl⟩ := Option.map_eq_some_iff.mp leads
      exact even.frames newest (List.mem_of_getLast? onTop)
  split at leads
  case isTrue =>
      split at leads <;> cases leads
      exact counterEven
  split at leads <;> cases leads
  omega

theorem counter_even_advance
    {m : Machine} (even : m.OnEvenAddresses) (jumps : m.JumpsEvenly) :
    m.advance.machine.pc.toNat % 2 = 0 := by
  rw [m.pc_advance]
  cases leads : m.destination? with
  | none =>
      have counterEven := even.counter
      rw [Option.getD_none]
      omega
  | some target =>
      exact destination_even even jumps leads

theorem frames_even_advance {m : Machine} (even : m.OnEvenAddresses) :
    ∀ a ∈ m.advance.machine.stack.toList, a.toNat % 2 = 0 := by
  intro a onStack
  rcases m.stack_advance with kept | pushed | ⟨_, popped⟩
  · rw [kept] at onStack
    exact even.frames a onStack
  · rw [pushed, List.mem_append, List.mem_singleton] at onStack
    rcases onStack with below | isNew
    · exact even.frames a below
    · rw [isNew]
      exact toNat_add_two_even even.counter
  · apply even.frames
    rw [popped]
    exact List.mem_append_left _ onStack

theorem onEvenAddresses_restarted
    {m : Machine} (atStart : m.pc = programStart)
    (isEmpty : m.stack = CallStack.empty) : m.OnEvenAddresses := by
  constructor
  · rw [atStart]
    rfl
  · intro a onStack
    rw [isEmpty, CallStack.toList_empty] at onStack
    cases onStack

/-- An operation keeps the counter and the stack on even addresses, unless it is
the cycle of a word that jumps to an odd one. -/
theorem onEvenAddresses_apply
    {m : Machine} (even : m.OnEvenAddresses) {operation : Operation}
    (jumps : operation = .cycle → m.JumpsEvenly) :
    (m.apply operation).machine.OnEvenAddresses := by
  cases operation with
  | cycle =>
      exact ⟨counter_even_advance even (jumps rfl), frames_even_advance even⟩
  | load program =>
      simp only [apply, load]
      split <;> exact ⟨even.counter, even.frames⟩
  | reset | clear =>
      exact onEvenAddresses_restarted rfl rfl
  | _ =>
      exact ⟨even.counter, even.frames⟩

/-- A jump to an odd address shows in the counter after it. -/
theorem jumpsEvenly_of_counter_even
    {m : Machine} (even : m.advance.machine.pc.toNat % 2 = 0) :
    m.JumpsEvenly := by
  rw [m.pc_advance] at even
  refine ⟨?_, ?_, ?_⟩
  · intro isJump
    simpa [destination?, isJump] using even
  · intro isCall room
    simpa [destination?, isCall, room] using even
  · intro isJumpFrom
    simp only [destination?, isJumpFrom] at even
    change ((m.nextWord.target.toNat + (m.v 0).toNat) % 4096) % 2 = 0 at even
    omega

/-! ## Histories -/

/-- Every jump, and every call that is not refused, that a history carries out leads
to an even number. -/
def AlwaysJumpsEvenly (m : Machine) (history : List Operation) : Prop :=
  ∀ n, history[n]? = some .cycle →
    (m.after (history.take n)).JumpsEvenly

theorem onEvenAddresses_after
    {m : Machine} (even : m.OnEvenAddresses) {history : List Operation}
    (jumps : m.AlwaysJumpsEvenly history) (n : Nat) :
    (m.after (history.take n)).OnEvenAddresses := by
  induction n with
  | zero =>
      exact even
  | succ n inductionHypothesis =>
      by_cases inRange : n < history.length
      · rw [m.after_take_succ inRange]
        apply onEvenAddresses_apply inductionHypothesis
        intro isCycle
        apply jumps
        rw [List.getElem?_eq_getElem inRange, isCycle]
      · have done : history.length ≤ n := Nat.not_lt.mp inRange
        rw [List.take_of_length_le done] at inductionHypothesis
        rw [List.take_of_length_le (Nat.le_succ_of_le done)]
        exact inductionHypothesis

/-- From switching on, the counter is even in every state of a history exactly if
no jump and no call that is carried out leads to an odd number.  Then the return
addresses are even too, and no fetch reaches around the end of the memory. -/
theorem counter_even_iff_jumps_even
    (settings : Settings) (entropy : ChaCha.Key) (history : List Operation) :
    let start := powerOn settings entropy
    let found := fun n => start.after (history.take n)
    (start.AlwaysJumpsEvenly history ↔ ∀ n, (found n).pc.toNat % 2 = 0) ∧
      (start.AlwaysJumpsEvenly history →
        ∀ n, (∀ a ∈ (found n).stack.toList, a.toNat % 2 = 0) ∧
          (found n).pc.toNat + 1 < Memory.size) := by
  intro start found
  have evenFirst : start.OnEvenAddresses :=
    onEvenAddresses_restarted rfl rfl
  refine ⟨⟨?_, ?_⟩, ?_⟩
  · intro jumps n
    exact (onEvenAddresses_after evenFirst jumps n).counter
  · intro even n isCycle
    obtain ⟨inRange, operationIs⟩ := List.getElem?_eq_some_iff.mp isCycle
    have evenNext :
        (start.after (history.take (n + 1))).pc.toNat % 2 = 0 := even (n + 1)
    rw [start.after_take_succ inRange, operationIs] at evenNext
    exact jumpsEvenly_of_counter_even evenNext
  · intro jumps n
    have evenThere := onEvenAddresses_after evenFirst jumps n
    exact ⟨evenThere.frames, fetch_inside_of_even evenThere.counter⟩

end ChipEight.Machine

import ChipEight.Proofs.Cycle
import ChipEight.Proofs.History

/-!
# The order of random bytes

Random bytes are drawn by one family of words and by nothing else, one byte for
each word carried out.  So whatever stream of random words a machine reads, how far
it has been read is told by counting these words of the program over the whole life
of the machine, and each of them receives the byte at its place in the stream.  For
a machine with a seed the stream is the keystream of the key of the seed.
-/

namespace ChipEight.Machine

/-! ## Which operations draw a byte -/

/-- An operation is the cycle of a word that asks for a random byte. -/
def Draws (m : Machine) (operation : Operation) : Prop :=
  operation = .cycle ∧ m.nextWord.family = 0xC

instance (m : Machine) (operation : Operation) :
    Decidable (m.Draws operation) := by
  unfold Draws
  infer_instance

/-- How many bytes are drawn in the course of a history. -/
def drawCount (m : Machine) : List Operation → Nat
  | [] => 0
  | operation :: rest =>
    (if m.Draws operation then 1 else 0) +
      (m.apply operation).machine.drawCount rest

/-! ## The source under one operation -/

theorem random_advance_of_other
    {m : Machine} (otherFamily : m.nextWord.family ≠ 0xC) :
    m.advance.machine.random = m.random := by
  rcases m.machine_advance_cases with
    onlyFetched | ⟨instruction, asks, executed⟩
  · rw [onlyFetched]
    rfl
  · apply (keeps_of_executed executed).random
    cases instruction with
    | random x mask =>
        exact absurd asks.1 otherFamily
    | _ => rfl

theorem advance_of_random
    {m : Machine} (asksForByte : m.nextWord.family = 0xC) :
    m.advance =
      { machine :=
          { m.fetch with random := m.random.next.2 }.setRegister m.nextWord.x
            (m.random.next.1 &&& m.nextWord.lowByte) } := by
  have asks :
      m.nextWord.AsksFor (.random m.nextWord.x m.nextWord.lowByte) :=
    ⟨asksForByte, rfl, rfl⟩
  exact advance_of_asksFor asks rfl

/-- An operation moves the source by one byte if it draws one, and not at all
otherwise. -/
theorem random_apply (m : Machine) (operation : Operation) :
    (m.apply operation).machine.random =
      ⟨m.random.words,
        m.random.drawn + if m.Draws operation then 1 else 0⟩ := by
  cases operation with
  | cycle =>
      change m.advance.machine.random = _
      by_cases asksForByte : m.nextWord.family = 0xC
      · rw [advance_of_random asksForByte, if_pos ⟨rfl, asksForByte⟩]
        rfl
      · have drawsNone : ¬m.Draws .cycle := fun draws => asksForByte draws.2
        rw [random_advance_of_other asksForByte, if_neg drawsNone]
        rfl
  | load program =>
      have drawsNone : ¬m.Draws (.load program) := fun draws => by
        cases draws.1
      rw [if_neg drawsNone]
      simp only [apply, load]
      split <;> rfl
  | tick | reset | clear | setKey _ _ | clearKeys | takeRedraw => rfl

theorem random_after (m : Machine) (history : List Operation) :
    (m.after history).random =
      ⟨m.random.words, m.random.drawn + m.drawCount history⟩ := by
  induction history generalizing m with
  | nil =>
      rfl
  | cons operation rest inductionHypothesis =>
      rw [after_cons, inductionHypothesis, random_apply, drawCount,
        Nat.add_assoc]

/-! ## The byte that an operation draws -/

theorem reply_of_draws
    {m : Machine} {operation : Operation} (draws : m.Draws operation) :
    (m.apply operation).reply = .done := by
  obtain ⟨isCycle, asksForByte⟩ := draws
  rw [isCycle]
  exact congrArg Outcome.reply (advance_of_random asksForByte)

theorem v_apply_of_draws
    {m : Machine} {operation : Operation} (draws : m.Draws operation) :
    (m.apply operation).machine.v m.nextWord.x =
      RandomSource.byteOf (m.random.words m.random.drawn) &&&
        m.nextWord.lowByte := by
  obtain ⟨isCycle, asksForByte⟩ := draws
  rw [isCycle]
  change m.advance.machine.v m.nextWord.x = _
  rw [advance_of_random asksForByte]
  exact (Registers.get_set _ _ _ _).trans (if_pos rfl)

/-- Whatever stream the machine reads, after any history it stands as many places
further as there were words asking for a byte.  The next such word receives the byte
at that place. -/
theorem draws_in_order_of_stream
    (m : Machine) (history : List Operation) (operation : Operation) :
    let later := m.after history
    let next := later.apply operation
    let k := m.random.drawn + m.drawCount history
    later.random = ⟨m.random.words, k⟩ ∧
      if later.Draws operation then
        next.reply = .done ∧
          next.machine.v later.nextWord.x =
            RandomSource.byteOf (m.random.words k) &&&
              later.nextWord.lowByte ∧
          next.machine.random = ⟨m.random.words, k + 1⟩
      else next.machine.random = later.random := by
  intro later next k
  have source : later.random = ⟨m.random.words, k⟩ := m.random_after history
  have moved := later.random_apply operation
  refine ⟨source, ?_⟩
  by_cases draws : later.Draws operation
  · have received := v_apply_of_draws draws
    rw [if_pos draws, source] at moved
    rw [source] at received
    rw [if_pos draws]
    exact ⟨reply_of_draws draws, received, moved⟩
  · rw [if_neg draws] at moved
    rw [if_neg draws]
    exact moved

/-- After any history of a machine with a seed, the source has given as many bytes
as there were words asking for one.  The next such word receives the byte at that
place in the stream of the seed and moves the source on by that byte; no other
operation moves it. -/
theorem random_bytes_in_order
    (unknown : UnknownPolicy) (seed : UInt64) (entropy : ChaCha.Key)
    (history : List Operation) (operation : Operation) :
    let start := powerOn { unknown := unknown, seed := some seed } entropy
    let m := start.after history
    let next := m.apply operation
    let k := start.drawCount history
    let block := ChaCha.block (RandomSource.keyOfSeed seed)
      (UInt64.ofNat (k / 16))
    m.random.drawn = k ∧
      if operation = .cycle ∧ m.nextWord.family = 0xC then
        next.reply = .done ∧
          next.machine.v m.nextWord.x =
            block[k % 16].toBitVec.setWidth 8 &&& m.nextWord.lowByte ∧
          next.machine.random = { m.random with drawn := k + 1 }
      else next.machine.random = m.random := by
  intro start m next k block
  have counted := start.draws_in_order_of_stream history operation
  have place : start.random.drawn + start.drawCount history = k :=
    Nat.zero_add _
  simp only [place] at counted
  obtain ⟨source, drawn⟩ := counted
  refine ⟨congrArg RandomSource.drawn source, ?_⟩
  split
  next draws =>
    have asksForByte : m.Draws operation := draws
    rw [if_pos asksForByte] at drawn
    obtain ⟨answered, received, moved⟩ := drawn
    refine ⟨answered, received, moved.trans ?_⟩
    rw [source]
  next otherwise =>
    have drawsNone : ¬m.Draws operation := otherwise
    rw [if_neg drawsNone] at drawn
    exact drawn

end ChipEight.Machine

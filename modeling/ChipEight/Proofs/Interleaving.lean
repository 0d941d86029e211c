import ChipEight.Proofs.Change
import ChipEight.Proofs.History
import Mathlib.Logic.Relation

/-!
# Interleavings of ticks, key changes and cycles

A host ticks the timers and changes keys while it runs cycles.  A cycle whose
word has nothing to do with the timers comes to the same before and after a tick,
and one whose word asks for no key before and after a change of the keys.  So
histories that arise from each other by such exchanges lead to the same machine,
and their cycles answer alike.
-/

namespace ChipEight

/-! ## What a word concerns -/

/-- The words that read or set a timer. -/
def Word.ConcernsTimers (w : Word) : Prop :=
  w.family = 0xF ∧
    (w.lowByte = 0x07 ∨ w.lowByte = 0x15 ∨ w.lowByte = 0x18)

/-- The words that ask for a key. -/
def Word.ConcernsKeypad (w : Word) : Prop :=
  w.family = 0xE ∧ (w.lowByte = 0x9E ∨ w.lowByte = 0xA1) ∨
    w.family = 0xF ∧ w.lowByte = 0x0A

instance (w : Word) : Decidable w.ConcernsTimers := by
  unfold Word.ConcernsTimers
  infer_instance

instance (w : Word) : Decidable w.ConcernsKeypad := by
  unfold Word.ConcernsKeypad
  infer_instance

namespace Instruction

theorem not_usesTimers
    {w : Word} {instruction : Instruction}
    (decoded : decode w = some instruction) (blind : ¬w.ConcernsTimers) :
    instruction.usesTimers = false := by
  have asks := (decode_eq_some_iff _ _).mp decoded
  cases instruction with
  | readDelay x =>
      exact absurd ⟨asks.1, Or.inl asks.2.1⟩ blind
  | setDelay x =>
      exact absurd ⟨asks.1, Or.inr (Or.inl asks.2.1)⟩ blind
  | setSound x =>
      exact absurd ⟨asks.1, Or.inr (Or.inr asks.2.1)⟩ blind
  | _ => rfl

theorem not_usesKeypad
    {w : Word} {instruction : Instruction}
    (decoded : decode w = some instruction) (blind : ¬w.ConcernsKeypad) :
    instruction.usesKeypad = false := by
  have asks := (decode_eq_some_iff _ _).mp decoded
  cases instruction with
  | skipPressed x =>
      exact absurd (Or.inl ⟨asks.1, Or.inl asks.2.1⟩) blind
  | skipReleased x =>
      exact absurd (Or.inl ⟨asks.1, Or.inr asks.2.1⟩) blind
  | awaitKey x =>
      exact absurd (Or.inr ⟨asks.1, asks.2.1⟩) blind
  | _ => rfl

end Instruction

inductive Operation.IsKeyChange : Operation → Prop
  | setKey (key : Byte) (pressed : Bool) : IsKeyChange (.setKey key pressed)
  | clearKeys : IsKeyChange .clearKeys

namespace Machine

/-! ## One exchange -/

theorem advance_changed_timers
    {m : Machine} (blind : ¬m.nextWord.ConcernsTimers)
    (change : Timers → Timers) :
    (m.changed { timers := change }).advance =
      { m.advance with
        machine := m.advance.machine.changed { timers := change } } := by
  have sameWord :
      (m.changed { timers := change }).nextWord = m.nextWord := rfl
  apply advance_changed sameWord
  intro instruction decoded
  have unused := Instruction.not_usesTimers decoded blind
  constructor <;> simp [unused]

theorem advance_changed_keypad
    {m : Machine} (blind : ¬m.nextWord.ConcernsKeypad)
    (change : Keypad → Keypad) :
    (m.changed { keypad := change }).advance =
      { m.advance with
        machine := m.advance.machine.changed { keypad := change } } := by
  have sameWord :
      (m.changed { keypad := change }).nextWord = m.nextWord := rfl
  apply advance_changed sameWord
  intro instruction decoded
  have unused := Instruction.not_usesKeypad decoded blind
  constructor <;> simp [unused]

/-- Two operations on a machine, one after the other, that may change places. -/
inductive Exchangeable (m : Machine) : Operation → Operation → Prop
  | tickCycle (blind : ¬m.nextWord.ConcernsTimers) :
      Exchangeable m .tick .cycle
  | keyCycle {key : Operation} (isKeyChange : key.IsKeyChange)
      (blind : ¬m.nextWord.ConcernsKeypad) :
      Exchangeable m key .cycle
  | tickKey {key : Operation} (isKeyChange : key.IsKeyChange) :
      Exchangeable m .tick key

/-! ## The answers of the cycles -/

/-- The answers of the cycles in a history, in order. -/
def cycleReplies (m : Machine) (history : List Operation) : List Reply :=
  ((history.zip (m.run history).replies).filter
    fun done => done.1 = .cycle).map Prod.snd

theorem cycleReplies_cons
    (m : Machine) (operation : Operation) (rest : List Operation) :
    m.cycleReplies (operation :: rest) =
      (if operation = .cycle then [(m.apply operation).reply] else []) ++
        (m.apply operation).machine.cycleReplies rest := by
  by_cases isCycle : operation = .cycle
  · simp [cycleReplies, run, isCycle]
  · simp [cycleReplies, run, isCycle]

theorem cycleReplies_append (m : Machine) (earlier later : List Operation) :
    m.cycleReplies (earlier ++ later) =
      m.cycleReplies earlier ++ (m.after earlier).cycleReplies later := by
  induction earlier generalizing m with
  | nil =>
      rfl
  | cons operation rest inductionHypothesis =>
      rw [List.cons_append, cycleReplies_cons, inductionHypothesis,
        cycleReplies_cons, after_cons, List.append_assoc]

theorem exchange_of_overlooked
    {m : Machine} {operation : Operation} {change : Change}
    (makesChange : ∀ n : Machine,
      n.apply operation = { machine := n.changed change })
    (noCycle : operation ≠ .cycle)
    (overlooked :
      (m.changed change).advance =
        { m.advance with machine := m.advance.machine.changed change }) :
    m.after [operation, .cycle] = m.after [.cycle, operation] ∧
      m.cycleReplies [operation, .cycle] =
        m.cycleReplies [.cycle, operation] := by
  have cycled : ∀ n : Machine, n.apply .cycle = n.cycle := fun _ => rfl
  constructor
  · simp only [after_cons, after_nil, makesChange, cycled, machine_cycle,
      overlooked]
  · simp only [cycleReplies_cons, makesChange, cycled, reply_cycle,
      machine_cycle, overlooked, if_pos, if_neg noCycle]
    rfl

theorem exchange
    {m : Machine} {first second : Operation}
    (may : m.Exchangeable first second) :
    m.after [first, second] = m.after [second, first] ∧
      m.cycleReplies [first, second] = m.cycleReplies [second, first] := by
  cases may with
  | tickCycle blind =>
      have overlooked := advance_changed_timers blind Timers.tick
      exact exchange_of_overlooked (fun _ => rfl) (by simp) overlooked
  | keyCycle isKeyChange blind =>
      cases isKeyChange with
      | setKey key pressed =>
          have overlooked :=
            advance_changed_keypad blind fun keypad =>
              keypad.set key.low pressed
          exact exchange_of_overlooked (fun _ => rfl) (by simp) overlooked
      | clearKeys =>
          have overlooked :=
            advance_changed_keypad blind fun _ => .released
          exact exchange_of_overlooked (fun _ => rfl) (by simp) overlooked
  | tickKey isKeyChange =>
      cases isKeyChange <;> exact ⟨rfl, rfl⟩

/-! ## Interleavings -/

/-- One history arises from another by one exchange of neighbours. -/
inductive Exchanged (m : Machine) : List Operation → List Operation → Prop
  | swap (earlier : List Operation) {first second : Operation}
      (later : List Operation)
      (may : (m.after earlier).Exchangeable first second) :
      Exchanged m (earlier ++ first :: second :: later)
        (earlier ++ second :: first :: later)

theorem agree_of_exchanged
    {m : Machine} {left right : List Operation}
    (exchanged : m.Exchanged left right) :
    m.after left = m.after right ∧
      m.cycleReplies left = m.cycleReplies right := by
  cases exchanged with
  | swap earlier later may =>
      rename_i first second
      obtain ⟨sameMachine, sameReplies⟩ := exchange may
      have inTurn : ∀ a b : Operation,
          earlier ++ a :: b :: later = (earlier ++ [a, b]) ++ later := by
        intro a b
        simp
      have sameSoFar :
          m.after (earlier ++ [first, second]) =
            m.after (earlier ++ [second, first]) := by
        rw [after_append, sameMachine, ← after_append]
      have sameAnswers :
          m.cycleReplies (earlier ++ [first, second]) =
            m.cycleReplies (earlier ++ [second, first]) := by
        rw [cycleReplies_append, sameReplies, ← cycleReplies_append]
      rw [inTurn, inTurn]
      constructor
      · rw [after_append, sameSoFar, ← after_append]
      · rw [cycleReplies_append, sameAnswers, sameSoFar,
          ← cycleReplies_append]

/-- Histories that arise from each other by exchanges of neighbours, in either
direction and one after the other, lead to the same machine, and their cycles
answer alike in order. -/
theorem interleavings_agree
    {m : Machine} {left right : List Operation}
    (related : Relation.EqvGen m.Exchanged left right) :
    m.after left = m.after right ∧
      m.cycleReplies left = m.cycleReplies right := by
  induction related with
  | rel left right exchanged =>
      exact agree_of_exchanged exchanged
  | refl history =>
      exact ⟨rfl, rfl⟩
  | symm left right _ inductionHypothesis =>
      exact ⟨inductionHypothesis.1.symm, inductionHypothesis.2.symm⟩
  | trans left middle right _ _ first second =>
      exact ⟨first.1.trans second.1, first.2.trans second.2⟩

/-- A machine about to load a key's number into a register and to ask for the
key. -/
def askingForKey : Machine :=
  (powerOn {} (Vector.replicate 8 0)).after
    [.load [0x65, 0x07, 0xE5, 0x9E]]

/-- The key may go down at any time before the cycle that asks for it, and the
timers may tick before and after that cycle. -/
theorem askingForKey_interleavings :
    let left : List Operation := [.cycle, .setKey 7 true, .tick, .cycle]
    let right : List Operation := [.setKey 7 true, .cycle, .cycle, .tick]
    askingForKey.after left = askingForKey.after right ∧
      askingForKey.cycleReplies left = askingForKey.cycleReplies right := by
  intro left right
  have loads : ¬(askingForKey.after []).nextWord.ConcernsKeypad := by
    decide +kernel
  have asks :
      ¬(askingForKey.after [.setKey 7 true, .cycle]).nextWord.ConcernsTimers := by
    decide +kernel
  have keyFirst :
      askingForKey.Exchanged [.setKey 7 true, .cycle, .tick, .cycle] left :=
    .swap [] [.tick, .cycle] (.keyCycle (.setKey 7 true) loads)
  have tickLast :
      askingForKey.Exchanged [.setKey 7 true, .cycle, .tick, .cycle] right :=
    .swap [.setKey 7 true, .cycle] [] (.tickCycle asks)
  exact interleavings_agree
    (.trans _ _ _ (.symm _ _ (.rel _ _ keyFirst)) (.rel _ _ tickLast))

end Machine

end ChipEight

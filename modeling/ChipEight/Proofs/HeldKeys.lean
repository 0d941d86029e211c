import ChipEight.Proofs.History
import ChipEight.Proofs.NextAddress

/-!
# Which keys are held down

No cycle and no tick changes the keypad.  The operations that do decide for some
keys whether they are held down, so a key is held down exactly if the latest
operation that decided about it has pressed it.  The keys that a program asks for
are these.
-/

namespace ChipEight

/-- What an operation decides about a key, if it decides anything: whether the key
is held down afterwards. -/
def Operation.decides? (key : Nibble) : Operation → Option Bool
  | .setKey code pressed => if code.low = key then some pressed else none
  | .clearKeys => some false
  | .reset => some false
  | .clear => some false
  | _ => none

theorem Byte.low_setWidth (key : Nibble) : Byte.low (key.setWidth 8) = key := by
  revert key
  decide

theorem Byte.low_eq_iff (a b : Byte) :
    a.low = b.low ↔ a.toNat % 16 = b.toNat % 16 := by
  rw [← BitVec.toNat_inj, Byte.low, Byte.low, BitVec.toNat_setWidth,
    BitVec.toNat_setWidth]

/-- An operation decides about the key with a number: it presses or releases a key
with the same number modulo sixteen, or it releases all keys. -/
def Operation.Decides (q : Byte) : Operation → Prop
  | .setKey code _ => code.toNat % 16 = q.toNat % 16
  | .clearKeys => True
  | .reset => True
  | .clear => True
  | _ => False

/-- The latest operation that decides about a key presses it. -/
def HeldAfter (history : List Operation) (q : Byte) : Prop :=
  ∃ earlier code later,
    history = earlier ++ .setKey code true :: later ∧
      code.toNat % 16 = q.toNat % 16 ∧
      ∀ operation ∈ later, ¬operation.Decides q

theorem Operation.decides_eq_none_iff (q : Byte) (operation : Operation) :
    operation.decides? q.low = none ↔ ¬operation.Decides q := by
  cases operation with
  | setKey code pressed =>
      simp only [decides?, Decides, ← Byte.low_eq_iff]
      split <;> simp [*]
  | _ => simp [decides?, Decides]

theorem Operation.decides_eq_true_iff (q : Byte) (operation : Operation) :
    operation.decides? q.low = some true ↔
      ∃ code, operation = .setKey code true ∧
        code.toNat % 16 = q.toNat % 16 := by
  cases operation with
  | setKey code pressed =>
      simp only [decides?, ← Byte.low_eq_iff]
      split <;> simp [*]
  | _ => simp [decides?]

theorem heldAfter_iff (history : List Operation) (q : Byte) :
    HeldAfter history q ↔
      (history.filterMap (Operation.decides? q.low)).getLast? = some true := by
  -- The last that decides is the first in the reversed history.
  rw [List.getLast?_filterMap, List.findSome?_eq_some_iff]
  constructor
  · rintro ⟨earlier, code, later, rfl, sameKey, silent⟩
    refine ⟨later.reverse, .setKey code true, earlier.reverse, by simp, ?_, ?_⟩
    · exact (Operation.decides_eq_true_iff _ _).mpr ⟨code, rfl, sameKey⟩
    · intro operation among
      exact (Operation.decides_eq_none_iff _ _).mpr
        (silent operation (List.mem_reverse.mp among))
  · rintro ⟨later, operation, earlier, cut, presses, silent⟩
    obtain ⟨code, rfl, sameKey⟩ :=
      (Operation.decides_eq_true_iff _ _).mp presses
    refine ⟨earlier.reverse, code, later.reverse, ?_, sameKey, ?_⟩
    · simpa using congrArg List.reverse cut
    · intro operation among
      exact (Operation.decides_eq_none_iff _ _).mp
        (silent operation (List.mem_reverse.mp among))

namespace Machine

theorem keypad_advance (m : Machine) :
    m.advance.machine.keypad = m.keypad := by
  rcases m.machine_advance_cases with onlyFetched | ⟨_, _, executed⟩
  · rw [onlyFetched]
    rfl
  · exact (keeps_of_executed executed).keypad

theorem isPressed_apply (m : Machine) (operation : Operation) (key : Nibble) :
    (m.apply operation).machine.keypad.isPressed key =
      (operation.decides? key).getD (m.keypad.isPressed key) := by
  cases operation with
  | cycle =>
      change m.advance.machine.keypad.isPressed key = _
      rw [keypad_advance]
      rfl
  | load program =>
      simp only [apply, load]
      split <;> rfl
  | setKey code pressed =>
      change (m.keypad.set code.low pressed).isPressed key = _
      rw [Keypad.isPressed_set, Operation.decides?]
      split <;> rfl
  | reset | clear | clearKeys =>
      exact Keypad.isPressed_released key
  | tick | takeRedraw =>
      rfl

/-- The latest operation that decides about a key is the one that counts. -/
theorem isPressed_after
    (m : Machine) (history : List Operation) (key : Nibble) :
    (m.after history).keypad.isPressed key =
      ((history.filterMap (Operation.decides? key)).getLast?).getD
        (m.keypad.isPressed key) := by
  induction history generalizing m with
  | nil =>
      rfl
  | cons operation rest inductionHypothesis =>
      rw [after_cons, inductionHypothesis, isPressed_apply]
      cases decided : operation.decides? key with
      | none =>
          rw [List.filterMap_cons_none decided]
          rfl
      | some pressed =>
          rw [List.filterMap_cons_some decided, List.getLast?_cons]
          cases (rest.filterMap (Operation.decides? key)).getLast? <;> rfl

/-! ## The law of held keys -/

theorem isPressed_powerOn
    (settings : Settings) (entropy : ChaCha.Key) (history : List Operation)
    (q : Byte) :
    ((powerOn settings entropy).after history).keypad.isPressed q.low = true ↔
      HeldAfter history q := by
  have atFirst : (powerOn settings entropy).keypad.isPressed q.low = false :=
    Keypad.isPressed_released q.low
  rw [isPressed_after, atFirst, heldAfter_iff]
  cases (history.filterMap (Operation.decides? q.low)).getLast? <;> simp

theorem passesOver_of_skipPressed
    {m : Machine}
    (asks : m.nextWord.family = 0xE ∧ m.nextWord.lowByte = 0x9E) :
    m.PassesOver ↔ m.keypad.isPressed (m.v m.nextWord.x).low = true := by
  simp [PassesOver, asks]

theorem passesOver_of_skipReleased
    {m : Machine}
    (asks : m.nextWord.family = 0xE ∧ m.nextWord.lowByte = 0xA1) :
    m.PassesOver ↔ ¬m.keypad.isPressed (m.v m.nextWord.x).low = true := by
  simp [PassesOver, asks]

/-- After any history from switching on, a key is held down exactly if the latest
operation that decides about it presses it, by whichever of its sixteen numbers.
The lowest key held down is the lowest of which this is so.  The words that pass
over the next one for a key ask for the same, and neither a cycle nor a tick
changes any key. -/
theorem keys_held_as_last_decided
    (settings : Settings) (entropy : ChaCha.Key) (history : List Operation) :
    let m := (powerOn settings entropy).after history
    let asked := m.v m.nextWord.x
    (∀ q : Byte,
      m.keypad.isPressed q.low = true ↔ HeldAfter history q) ∧
    (∀ key : Nibble, m.keypad.firstPressed = some key ↔
      HeldAfter history (key.setWidth 8) ∧
        ∀ lower < key, ¬HeldAfter history (lower.setWidth 8)) ∧
    (m.keypad.firstPressed = none ↔
      ∀ key : Nibble, ¬HeldAfter history (key.setWidth 8)) ∧
    (m.nextWord.family = 0xE ∧ m.nextWord.lowByte = 0x9E →
      (m.cycle.machine.pc = m.pc + 4 ↔ HeldAfter history asked) ∧
        (m.cycle.machine.pc = m.pc + 2 ↔ ¬HeldAfter history asked)) ∧
    (m.nextWord.family = 0xE ∧ m.nextWord.lowByte = 0xA1 →
      (m.cycle.machine.pc = m.pc + 4 ↔ ¬HeldAfter history asked) ∧
        (m.cycle.machine.pc = m.pc + 2 ↔ HeldAfter history asked)) ∧
    m.cycle.machine.keypad = m.keypad ∧
    m.tick.keypad = m.keypad := by
  intro m asked
  have byNumber : ∀ q : Byte,
      m.keypad.isPressed q.low = true ↔ HeldAfter history q :=
    isPressed_powerOn settings entropy history
  have byKey : ∀ key : Nibble,
      m.keypad.isPressed key = true ↔ HeldAfter history (key.setWidth 8) := by
    intro key
    rw [← byNumber, Byte.low_setWidth]
  refine ⟨byNumber, ?_, ?_, ?_, ?_, m.keypad_advance, rfl⟩
  · intro key
    simp only [Keypad.firstPressed_eq_some_iff, ← byKey, Bool.not_eq_true]
  · simp only [Keypad.firstPressed_eq_none_iff, ← byKey, Bool.not_eq_true]
  · intro asks
    have isSkip : m.nextWord.family ∈ ([3, 4, 5, 9, 0xE] : List Nibble) := by
      simp [asks]
    rw [← byNumber asked, ← passesOver_of_skipPressed asks]
    exact pc_cycle_of_skip isSkip
  · intro asks
    have isSkip : m.nextWord.family ∈ ([3, 4, 5, 9, 0xE] : List Nibble) := by
      simp [asks]
    have skips := pc_cycle_of_skip isSkip
    rw [passesOver_of_skipReleased asks, not_not, byNumber asked] at skips
    exact skips

end Machine

end ChipEight

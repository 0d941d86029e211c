import ChipEight.Proofs.Cycle
import ChipEight.Proofs.History
import Mathlib.Logic.Function.Iterate

/-!
# Waiting for a key

The word that awaits a key is met again and again until a key is held down.  Until
then its cycles leave no trace but the latest word, whatever else the host does to
timers, keys and redraw, and a key that goes down and up between two cycles is never
seen.  The first cycle that finds keys held down takes the lowest of them.
-/

namespace ChipEight.Machine

/-! ## While no key is held -/

/-- What a host can do to a machine without ending its wait: cycles while no key is
held down, ticks, changes of the keys, and taking the redraw. -/
def MayWait (m : Machine) : Operation → Prop
  | .cycle => ∀ key, m.keypad.isPressed key = false
  | .tick => True
  | .setKey _ _ => True
  | .clearKeys => True
  | .takeRedraw => True
  | _ => False

/-- Nothing in the course of a history ends a wait. -/
def WaitsThrough (m : Machine) : List Operation → Prop
  | [] => True
  | operation :: rest =>
    m.MayWait operation ∧ (m.apply operation).machine.WaitsThrough rest

instance (m : Machine) (operation : Operation) :
    Decidable (m.MayWait operation) :=
  match operation with
  | .cycle => inferInstanceAs (Decidable (∀ _ : Nibble, _))
  | .tick | .setKey _ _ | .clearKeys | .takeRedraw => isTrue trivial
  | .load _ | .reset | .clear => isFalse id

instance decidableWaitsThrough (m : Machine) :
    (history : List Operation) → Decidable (m.WaitsThrough history)
  | [] => isTrue trivial
  | operation :: rest =>
    have := decidableWaitsThrough (m.apply operation).machine rest
    inferInstanceAs (Decidable (_ ∧ _))

variable {m : Machine} {x : Nibble}

theorem cycle_of_noneHeld
    (awaits : m.nextWord.AsksFor (.awaitKey x))
    (noneHeld : ∀ key, m.keypad.isPressed key = false) :
    m.cycle.machine = { m with lastWord := m.nextWord } := by
  rw [machine_cycle, advance_of_noneHeld awaits noneHeld]
  rfl

/-- What a machine comes to by waiting: nothing has changed but the latest word, by
cycles, the timers, by ticks, the redraw, by being taken, and the keys. -/
structure HasWaited (m : Machine) (history : List Operation) (next : Machine) :
    Prop where
  rest :
    next =
      { m with
        lastWord := next.lastWord
        timers := next.timers
        keypad := next.keypad
        redraw := next.redraw }
  lastWord :
    next.lastWord = if .cycle ∈ history then m.nextWord else m.lastWord
  timers : next.timers = Timers.tick^[history.count .tick] m.timers
  redraw : next.redraw = if .takeRedraw ∈ history then false else m.redraw

theorem HasWaited.nextWord_eq
    {history : List Operation} {next : Machine}
    (waited : m.HasWaited history next) : next.nextWord = m.nextWord := by
  rw [waited.rest]
  rfl

theorem HasWaited.append
    {earlier later : List Operation} {between next : Machine}
    (first : m.HasWaited earlier between)
    (second : between.HasWaited later next) :
    m.HasWaited (earlier ++ later) next := by
  constructor
  · rw [second.rest, first.rest]
  · rw [second.lastWord, first.nextWord_eq, first.lastWord]
    by_cases cycled : .cycle ∈ later <;> simp [cycled]
  · rw [second.timers, first.timers, ← Function.iterate_add_apply,
      List.count_append, Nat.add_comm]
  · rw [second.redraw, first.redraw]
    by_cases taken : .takeRedraw ∈ later <;> simp [taken]

theorem hasWaited_apply
    {operation : Operation} (awaits : m.nextWord.AsksFor (.awaitKey x))
    (mayWait : m.MayWait operation) :
    m.HasWaited [operation] (m.apply operation).machine := by
  cases operation with
  | cycle =>
      have unmoved : (m.apply .cycle).machine = _ :=
        cycle_of_noneHeld awaits mayWait
      rw [unmoved]
      exact ⟨rfl, rfl, rfl, rfl⟩
  | tick | setKey _ _ | clearKeys | takeRedraw =>
      exact ⟨rfl, rfl, rfl, rfl⟩
  | load _ | reset | clear =>
      cases mayWait

/-- As long as nothing ends the wait, the machine waits. -/
theorem hasWaited_after
    {history : List Operation} (awaits : m.nextWord.AsksFor (.awaitKey x))
    (waits : m.WaitsThrough history) :
    m.HasWaited history (m.after history) := by
  induction history generalizing m with
  | nil =>
      exact ⟨rfl, rfl, rfl, rfl⟩
  | cons operation rest inductionHypothesis =>
      obtain ⟨mayWait, waitsLater⟩ := waits
      have first := hasWaited_apply awaits mayWait
      have stillAwaits :
          (m.apply operation).machine.nextWord.AsksFor (.awaitKey x) := by
        rwa [first.nextWord_eq]
      exact first.append (inductionHypothesis stillAwaits waitsLater)

/-! ## The cycle that finds a key -/

theorem cycle_of_lowest
    {key : Nibble} (awaits : m.nextWord.AsksFor (.awaitKey x))
    (isHeld : m.keypad.isPressed key = true)
    (noneLower : ∀ lower, lower < key → m.keypad.isPressed lower = false) :
    m.cycle.reply = .done ∧
      m.cycle.machine =
        { m with
          lastWord := m.nextWord
          pc := m.pc + 2
          registers := m.registers.set x (key.setWidth 8) } := by
  have isFirst : m.keypad.firstPressed = some key :=
    (m.keypad.firstPressed_eq_some_iff key).mpr ⟨isHeld, noneLower⟩
  rw [reply_cycle, machine_cycle, advance_of_firstPressed awaits isFirst]
  exact ⟨rfl, rfl⟩

/-- A machine at a word that awaits a key stays there, whatever the host does but to
run a cycle while a key is held down, and nothing shows that it has waited but the
latest word, the ticks of the timers and the redraw if it was taken.  The first cycle
that finds keys held down puts the number of the lowest into the register, goes on to
the next word, and changes nothing else. -/
theorem waits_for_lowest_key
    {history : List Operation} (awaits : m.nextWord.AsksFor (.awaitKey x))
    (waits : m.WaitsThrough history) :
    let waiting := m.after history
    let captured := waiting.cycle.machine
    waiting.pc = m.pc ∧
      waiting =
        { m with
          lastWord := if .cycle ∈ history then m.nextWord else m.lastWord
          timers := Timers.tick^[history.count .tick] m.timers
          keypad := waiting.keypad
          redraw := if .takeRedraw ∈ history then false else m.redraw } ∧
      ((∃ key, waiting.keypad.isPressed key = true) →
        ∃ lowest, waiting.keypad.isPressed lowest = true ∧
          (∀ key, waiting.keypad.isPressed key = true → lowest ≤ key) ∧
          waiting.cycle.reply = .done ∧
          (captured.v x).toNat = lowest.toNat ∧
          captured.pc.toNat = (m.pc.toNat + 2) % 4096 ∧
          captured =
            { waiting with
              lastWord := m.nextWord
              pc := captured.pc
              registers := waiting.registers.set x (captured.v x) }) := by
  intro waiting captured
  have waited : m.HasWaited history waiting := hasWaited_after awaits waits
  have samePlace : waiting.pc = m.pc := by
    rw [waited.rest]
  refine ⟨samePlace, ?_, ?_⟩
  · rw [← waited.lastWord, ← waited.timers, ← waited.redraw]
    exact waited.rest
  · rintro ⟨someKey, someHeld⟩
    obtain ⟨lowest, isHeld, noneLower⟩ :=
      waiting.keypad.exists_lowest someHeld
    have stillAwaits : waiting.nextWord.AsksFor (.awaitKey x) := by
      rwa [waited.nextWord_eq]
    obtain ⟨done, isCaptured⟩ :=
      cycle_of_lowest stillAwaits isHeld noneLower
    have found : captured.v x = lowest.setWidth 8 := by
      change waiting.cycle.machine.v x = _
      rw [isCaptured]
      exact (Registers.get_set _ _ _ _).trans (if_pos rfl)
    have goesOn : captured.pc = m.pc + 2 := by
      change waiting.cycle.machine.pc = _
      rw [isCaptured, samePlace]
    refine ⟨lowest, isHeld, ?_, done, ?_, ?_, ?_⟩
    · intro key keyHeld
      rw [← BitVec.not_lt]
      intro isLower
      rw [noneLower key isLower] at keyHeld
      cases keyHeld
    · rw [found]
      exact BitVec.toNat_setWidth_of_le (by decide)
    · rw [goesOn]
      exact BitVec.toNat_add m.pc 2
    · rw [found, goesOn, ← samePlace, ← waited.nextWord_eq]
      exact isCaptured

/-- A machine that awaits a key over the end of the memory. -/
def awaitingAround : Machine :=
  { powerOn {} (Vector.replicate 8 0) with
    memory := (Memory.zero.write 0xFFF 0xF3).write 0 0x0A
    pc := 0xFFF
    timers := ⟨5, 0⟩ }

/-- Two keys are held down after a third has come and gone unseen. -/
def pressing : List Operation :=
  [.cycle, .setKey 2 true, .tick, .setKey 2 false, .cycle, .takeRedraw,
    .setKey 9 true, .setKey 4 true]

theorem awaitingAround_captures :
    awaitingAround.WaitsThrough pressing ∧
      (awaitingAround.after pressing).pc = 0xFFF ∧
      (awaitingAround.after pressing).timers = ⟨4, 0⟩ ∧
      ((awaitingAround.after pressing).cycle.machine.v 3).toNat = 4 ∧
      (awaitingAround.after pressing).cycle.machine.pc.toNat = 1 := by
  have awaits : awaitingAround.nextWord.AsksFor (.awaitKey 3) := by
    refine ⟨?_, ?_, ?_⟩ <;> decide +kernel
  have waits : awaitingAround.WaitsThrough pressing := by
    decide +kernel
  have onlyThese : ∀ key,
      (awaitingAround.after pressing).keypad.isPressed key = true →
        key = 4 ∨ key = 9 := by
    decide +kernel
  have isHeld :
      (awaitingAround.after pressing).keypad.isPressed 4 = true := by
    decide +kernel
  obtain ⟨samePlace, isSame, captures⟩ := waits_for_lowest_key awaits waits
  obtain ⟨lowest, lowestHeld, least, _, value, place, _⟩ :=
    captures ⟨4, isHeld⟩
  refine ⟨waits, samePlace, ?_, ?_, ?_⟩
  · rw [isSame]
    rfl
  · rw [value]
    rcases onlyThese lowest lowestHeld with rfl | rfl
    · rfl
    · exact absurd (least 4 isHeld) (by decide)
  · rw [place]
    rfl

end ChipEight.Machine

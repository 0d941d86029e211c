import ChipEight.Proofs.Interleaving
import ChipEight.Proofs.Refusal

/-!
# What the timers show

Each of the two timers is set by one word, stopped by starting again, and counted
down by ticks.  So it shows what it was last set to less the ticks since then, and
zero when there were more of them.
-/

namespace ChipEight

inductive Timer
  | delay
  | sound
deriving DecidableEq, Repr

namespace Timer

/-- The last byte of the words that set a timer. -/
def code : Timer → Byte
  | delay => 0x15
  | sound => 0x18

def value (timer : Timer) (timers : Timers) : Byte :=
  match timer with
  | delay => timers.delay
  | sound => timers.sound

end Timer

/-- Something that happens to a timer. -/
inductive TimerEvent
  | set (value : Byte)
  | ticked
deriving DecidableEq, Repr

namespace TimerEvent

/-- What a timer shows after an event. -/
def change (event : TimerEvent) (shown : Byte) : Byte :=
  match event with
  | set value => value
  | ticked => shown.countDown

/-- A byte is what the latest event that sets a timer has set it to, less the
ticks since then. -/
def CountsDown (events : List TimerEvent) (shown : Byte) : Prop :=
  ∃ earlier value ticks,
    events = earlier ++ .set value :: List.replicate ticks .ticked ∧
      (shown.toNat : Int) = max 0 ((value.toNat : Int) - ticks)

theorem countsDown_set (earlier : List TimerEvent) (value : Byte) :
    CountsDown (earlier ++ [.set value]) value := by
  refine ⟨earlier, value, 0, rfl, ?_⟩
  omega

theorem countsDown_ticked
    {events : List TimerEvent} {shown : Byte}
    (countsDown : CountsDown events shown) :
    CountsDown (events ++ [.ticked]) shown.countDown := by
  obtain ⟨earlier, value, ticks, rfl, left⟩ := countsDown
  refine ⟨earlier, value, ticks + 1, ?_, ?_⟩
  · rw [List.replicate_succ', List.append_assoc, List.cons_append]
  · rw [Byte.toNat_countDown]
    omega

theorem countsDown_change
    {events : List TimerEvent} {shown : Byte}
    (countsDown : CountsDown events shown) (event : TimerEvent) :
    CountsDown (events ++ [event]) (event.change shown) := by
  cases event with
  | set value =>
      exact countsDown_set events value
  | ticked =>
      exact countsDown_ticked countsDown

end TimerEvent

namespace Machine

/-! ## The timers under one operation -/

/-- What an operation does to a timer, if it does anything to it. -/
def timerEvent (m : Machine) (timer : Timer) (operation : Operation) :
    Option TimerEvent :=
  match operation with
  | .cycle =>
    let w := m.nextWord
    if w.family = 0xF ∧ w.lowByte = timer.code then some (.set (m.v w.x))
    else none
  | .tick => some .ticked
  | .reset => some (.set 0)
  | .clear => some (.set 0)
  | _ => none

/-- What a history does to a timer, in order. -/
def timerEvents (m : Machine) (timer : Timer) (history : List Operation) :
    List TimerEvent :=
  m.along (fun found operation => (found.timerEvent timer operation).toList)
    history

/-- A word that has nothing to do with the timers overlooks that they are put back
to what they were. -/
theorem timers_advance_of_blind
    {m : Machine} (blind : ¬m.nextWord.ConcernsTimers) :
    m.advance.machine.timers = m.timers :=
  congrArg (fun outcome => outcome.machine.timers)
    (advance_changed_timers blind fun _ => m.timers)

theorem advance_of_readDelay
    {m : Machine}
    (reads : m.nextWord.family = 0xF ∧ m.nextWord.lowByte = 0x07) :
    m.advance =
      { machine := m.fetch.setRegister m.nextWord.x m.timers.delay } := by
  have asks : m.nextWord.AsksFor (.readDelay m.nextWord.x) :=
    ⟨reads.1, reads.2, rfl⟩
  exact advance_of_asksFor asks rfl

theorem timers_advance_of_setDelay
    {m : Machine}
    (sets : m.nextWord.family = 0xF ∧ m.nextWord.lowByte = 0x15) :
    m.advance.machine.timers =
      { m.timers with delay := m.v m.nextWord.x } := by
  have asks : m.nextWord.AsksFor (.setDelay m.nextWord.x) :=
    ⟨sets.1, sets.2, rfl⟩
  rw [advance_of_asksFor asks rfl]
  rfl

theorem timers_advance_of_setSound
    {m : Machine}
    (sets : m.nextWord.family = 0xF ∧ m.nextWord.lowByte = 0x18) :
    m.advance.machine.timers =
      { m.timers with sound := m.v m.nextWord.x } := by
  have asks : m.nextWord.AsksFor (.setSound m.nextWord.x) :=
    ⟨sets.1, sets.2, rfl⟩
  rw [advance_of_asksFor asks rfl]
  rfl

theorem value_advance (m : Machine) (timer : Timer) :
    timer.value m.advance.machine.timers =
      if m.nextWord.family = 0xF ∧ m.nextWord.lowByte = timer.code then
        m.v m.nextWord.x
      else timer.value m.timers := by
  -- The words that concern the timers are the two that set one and the one that
  -- reads the delay.
  by_cases concerns : m.nextWord.ConcernsTimers
  · obtain ⟨family, low | low | low⟩ := concerns
    · rw [advance_of_readDelay ⟨family, low⟩]
      cases timer <;> simp [low, Timer.code] <;> rfl
    · rw [timers_advance_of_setDelay ⟨family, low⟩]
      cases timer <;> simp [family, low, Timer.code, Timer.value]
    · rw [timers_advance_of_setSound ⟨family, low⟩]
      cases timer <;> simp [family, low, Timer.code, Timer.value]
  · have setsNot :
        ¬(m.nextWord.family = 0xF ∧ m.nextWord.lowByte = timer.code) := by
      rintro ⟨family, low⟩
      apply concerns
      cases timer
      · exact ⟨family, Or.inr (Or.inl low)⟩
      · exact ⟨family, Or.inr (Or.inr low)⟩
    rw [timers_advance_of_blind concerns, if_neg setsNot]

/-- An operation makes of what a timer shows what its event makes of it, and leaves
the timer alone if it is no event. -/
theorem value_apply (m : Machine) (timer : Timer) (operation : Operation) :
    timer.value (m.apply operation).machine.timers =
      (m.timerEvent timer operation).elim (timer.value m.timers) fun event =>
        event.change (timer.value m.timers) := by
  cases operation with
  | cycle =>
      change timer.value m.advance.machine.timers = _
      rw [value_advance, timerEvent]
      split <;> rfl
  | load program =>
      simp only [apply, load]
      split <;> rfl
  | tick | reset | clear =>
      cases timer <;> rfl
  | setKey _ _ | clearKeys | takeRedraw =>
      rfl

/-! ## The law of the timers -/

theorem countsDown_after
    {m : Machine} {timer : Timer} {events : List TimerEvent}
    (countsDown : TimerEvent.CountsDown events (timer.value m.timers))
    (history : List Operation) :
    TimerEvent.CountsDown (events ++ m.timerEvents timer history)
      (timer.value (m.after history).timers) := by
  apply along_induction (fun soFar found =>
    TimerEvent.CountsDown soFar (timer.value found.timers)) _ countsDown
  intro soFar found operation counts
  rw [value_apply]
  cases found.timerEvent timer operation with
  | none =>
      simpa using counts
  | some event =>
      exact TimerEvent.countsDown_change counts event

theorem timers_apply_of_refused
    {m : Machine} {operation : Operation} {fault : Fault}
    (refused : (m.apply operation).reply = .refused fault) :
    (m.apply operation).machine.timers = m.timers := by
  rcases machine_apply_of_refused refused with unchanged | onlyFetched
  · rw [unchanged]
  · rw [onlyFetched]
    rfl

/-- After any history from switching on, a timer shows what it was last set to less
the ticks since then, or zero if there were more.  A sound is heard while its timer
shows more than zero, and the word that reads the delay receives what its timer
shows.  An operation that is no event for a timer leaves it alone, and one that is
refused leaves both. -/
theorem timers_count_down_from_last_set
    (settings : Settings) (entropy : ChaCha.Key) (history : List Operation) :
    let start := powerOn settings entropy
    let m := start.after history
    (∀ timer : Timer, ∃ earlier value ticks,
      TimerEvent.set 0 :: start.timerEvents timer history =
        earlier ++ .set value :: List.replicate ticks .ticked ∧
      ((timer.value m.timers).toNat : Int) =
        max 0 ((value.toNat : Int) - ticks)) ∧
    (m.sounding = true ↔ 0 < m.timers.sound.toNat) ∧
    (m.nextWord.family = 0xF ∧ m.nextWord.lowByte = 0x07 →
      m.cycle.reply = .done ∧
        m.cycle.machine.v m.nextWord.x = m.timers.delay ∧
        m.cycle.machine.timers = m.timers) ∧
    (∀ timer operation, m.timerEvent timer operation = none →
      timer.value (m.apply operation).machine.timers =
        timer.value m.timers) ∧
    ∀ operation fault, (m.apply operation).reply = .refused fault →
      (m.apply operation).machine.timers = m.timers := by
  intro start m
  refine ⟨?_, ?_, ?_, ?_, ?_⟩
  · intro timer
    have atFirst :
        TimerEvent.CountsDown [.set 0] (timer.value start.timers) := by
      cases timer <;> exact TimerEvent.countsDown_set [] 0
    exact countsDown_after atFirst history
  · have positive : 0 < m.timers.sound.toNat ↔ m.timers.sound ≠ 0 := by
      rw [Nat.pos_iff_ne_zero, ne_eq, ne_eq, ← BitVec.toNat_inj]
      rfl
    rw [positive]
    exact bne_iff_ne
  · intro reads
    rw [reply_cycle, machine_cycle, advance_of_readDelay reads]
    refine ⟨rfl, ?_, rfl⟩
    simp [v, setRegister, Registers.get_set]
  · intro timer operation noEvent
    rw [value_apply, noEvent]
    rfl
  · intro operation fault
    exact timers_apply_of_refused

end Machine

end ChipEight

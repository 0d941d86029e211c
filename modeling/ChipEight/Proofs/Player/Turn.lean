import ChipEight.Player.Session
import ChipEight.Proofs.History
import ChipEight.Proofs.Refusal

/-!
# The machine's turn

The turn of the machine is a number of cycles, up to and with the first that is
refused, and then a tick.
-/

namespace ChipEight

namespace Machine

/-! ## Cycles in a row -/

def cycled (m : Machine) (n : Nat) : Machine :=
  m.after (List.replicate n .cycle)

theorem cycled_succ (m : Machine) (n : Nat) :
    m.cycled (n + 1) = m.cycle.machine.cycled n :=
  rfl

def cycleMessages (m : Machine) (n : Nat) : List Message :=
  (m.run (List.replicate n .cycle)).messages

theorem cycleMessages_succ (m : Machine) (n : Nat) :
    m.cycleMessages (n + 1) =
      m.cycle.messages ++ m.cycle.machine.cycleMessages n :=
  rfl

/-- How many of some cycles in a row are run if a refusal is the end of them, and
the refusal. -/
def turn (m : Machine) : Nat → Nat × Option Fault
  | 0 => (0, none)
  | limit + 1 =>
    match m.cycle.reply with
    | .refused fault => (1, some fault)
    | _ =>
      let later := m.cycle.machine.turn limit
      (later.1 + 1, later.2)

/-- What becomes of some cycles in a row: all of them are run without a refusal, or
they are run up to and with the first that is refused. -/
inductive Turn (m : Machine) (limit : Nat) : Nat → Option Fault → Prop
  | smooth (done : ∀ k < limit, (m.cycled k).cycle.reply = .done) :
      Turn m limit limit none
  | stopped {k : Nat} {fault : Fault} (inRange : k < limit)
      (done : ∀ j < k, (m.cycled j).cycle.reply = .done)
      (refused : (m.cycled k).cycle.reply = .refused fault) :
      Turn m limit (k + 1) (some fault)

theorem reply_cycle_cases (m : Machine) :
    m.cycle.reply = .done ∨ ∃ fault, m.cycle.reply = .refused fault := by
  rcases m.advance_cases with ⟨isDone, _⟩ | ⟨fault, isRefused, _⟩
  · exact Or.inl isDone
  · exact Or.inr ⟨fault, isRefused⟩

theorem Turn.cons_done
    {m : Machine} {limit n : Nat} {fault? : Option Fault}
    (isDone : m.cycle.reply = .done)
    (later : m.cycle.machine.Turn limit n fault?) :
    m.Turn (limit + 1) (n + 1) fault? := by
  have alsoFirst : ∀ {bound : Nat},
      (∀ k < bound, (m.cycle.machine.cycled k).cycle.reply = .done) →
        ∀ k < bound + 1, (m.cycled k).cycle.reply = .done := by
    intro bound done k inRange
    cases k with
    | zero =>
        exact isDone
    | succ k =>
        exact done k (Nat.lt_of_succ_lt_succ inRange)
  cases later with
  | smooth done =>
      exact .smooth (alsoFirst done)
  | stopped inRange done refused =>
      exact .stopped (Nat.succ_lt_succ inRange) (alsoFirst done) refused

theorem turn_eq (m : Machine) (limit : Nat) :
    m.Turn limit (m.turn limit).1 (m.turn limit).2 := by
  induction limit generalizing m with
  | zero =>
      exact .smooth fun k inRange => absurd inRange (Nat.not_lt_zero k)
  | succ limit inductionHypothesis =>
      rcases m.reply_cycle_cases with isDone | ⟨fault, isRefused⟩
      · simp only [turn, isDone]
        exact (inductionHypothesis m.cycle.machine).cons_done isDone
      · simp only [turn, isRefused]
        exact .stopped (Nat.succ_pos limit)
          (fun j inRange => absurd inRange (Nat.not_lt_zero j)) isRefused

end Machine

namespace Player.Session

/-! ## The machine's turn -/

/-- The cycles of a turn are run up to the first refusal, which pauses the player
and is told as the last thing. -/
theorem runCycles_eq (s : Session) (limit : Nat) :
    let n := (s.machine.turn limit).1
    let fault? := (s.machine.turn limit).2
    s.runCycles limit =
      { s with
        machine := s.machine.cycled n
        journal := s.journal.record
          (s.machine.cycleMessages n ++ fault?.toList.map Message.stopped)
        paused := s.paused || fault?.isSome } := by
  induction limit generalizing s with
  | zero =>
      change s = { s with
        journal := s.journal.record [], paused := s.paused || false }
      rw [Journal.record_nil, Bool.or_false]
  | succ limit inductionHypothesis =>
      rcases s.machine.reply_cycle_cases with isDone | ⟨fault, isRefused⟩
      · simp only [runCycles, Machine.turn, isDone, inductionHypothesis, tell,
          Machine.cycled_succ, Machine.cycleMessages_succ,
          Journal.record_record, List.append_assoc]
      · simp only [runCycles, Machine.turn, isRefused, tell,
          Machine.cycled_succ, Machine.cycleMessages_succ,
          Journal.record_record, List.append_assoc]
        simp [Machine.cycled, Machine.cycleMessages, Machine.run]

def turnOperations (stage : Stage) (s : Session) : List Operation :=
  if s.paused then []
  else
    List.replicate (s.machine.turn stage.cyclesPerFrame).1 .cycle ++ [.tick]

def turnFault (stage : Stage) (s : Session) : Option Fault :=
  if s.paused then none else (s.machine.turn stage.cyclesPerFrame).2

theorem turnOperations_cases
    {stage : Stage} {s : Session} {operation : Operation}
    (isDone : operation ∈ s.turnOperations stage) :
    operation = .cycle ∨ operation = .tick := by
  unfold turnOperations at isDone
  split at isDone
  · cases isDone
  · rcases List.mem_append.mp isDone with isCycle | isTick
    · exact Or.inl (List.eq_of_mem_replicate isCycle)
    · exact Or.inr (List.mem_singleton.mp isTick)

theorem takeTurn_eq (stage : Stage) (s : Session) :
    s.takeTurn stage =
      { s with
        machine := s.machine.after (s.turnOperations stage)
        journal := s.journal.record
          ((s.machine.run (s.turnOperations stage)).messages ++
            (s.turnFault stage).toList.map Message.stopped)
        paused := s.paused || (s.turnFault stage).isSome } := by
  by_cases isPaused : s.paused = true
  · simp only [takeTurn, turnOperations, turnFault, if_pos isPaused]
    change s = { s with
      journal := s.journal.record [], paused := s.paused || false }
    rw [Journal.record_nil, Bool.or_false]
  · have tellsNothing : ∀ m : Machine, (m.run [.tick]).messages = [] :=
      fun _ => rfl
    simp only [takeTurn, turnOperations, turnFault, if_neg isPaused,
      runCycles_eq, Machine.after_append, Machine.messages_run_append,
      tellsNothing, List.append_nil]
    rfl

end Player.Session

end ChipEight

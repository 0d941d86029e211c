import ChipEight.Player.Session
import ChipEight.Proofs.History

/-!
# Cues as operations on the machine

A cue does at most one thing to the machine, tells at most one thing and has at most
one mark to leave that decides whether the player is paused.  So the cues of a
frame are a history of the machine, up to the first event that ends the player.
-/

namespace ChipEight.Player

/-! ## What cues do -/

/-- What decides whether the player is paused: a control key that goes down, or a
refusal of the machine. -/
inductive Mark
  | pause
  | resume
  | restart
  | fault
deriving DecidableEq, Repr

def Mark.halts : Mark → Bool
  | pause | fault => true
  | resume | restart => false

/-- Whether the player is paused after some marks: the latest of them decides. -/
def pausedAfter (paused : Bool) (marks : List Mark) : Bool :=
  marks.getLast?.elim paused Mark.halts

theorem pausedAfter_append (paused : Bool) (earlier later : List Mark) :
    pausedAfter paused (earlier ++ later) =
      pausedAfter (pausedAfter paused earlier) later := by
  rw [pausedAfter, pausedAfter, pausedAfter, List.getLast?_append]
  cases later.getLast? <;> rfl

namespace Cue

def ends : Cue → Bool
  | .event happening => happening.ends
  | .samples _ => false

/-- The key of the keypad that goes down or up with a host's key, as an operation
on the machine. -/
def keyOperations (key : HostKey) (pressed : Bool) : List Operation :=
  (key.keypadKey?.map fun k => .setKey (k.setWidth 8) pressed).toList

def operations : Cue → List Operation
  | .event (.keyDown key) =>
    if key = HostKey.restart then [.reset] else keyOperations key true
  | .event (.keyUp key) => keyOperations key false
  | _ => []

def marks : Cue → List Mark
  | .event (.keyDown key) =>
    if key = HostKey.pause then [.pause]
    else if key = HostKey.resume then [.resume]
    else if key = HostKey.restart then [.restart]
    else []
  | _ => []

def messages : Cue → List Message
  | .event (.keyDown key) =>
    if key = HostKey.pause then [.paused]
    else if key = HostKey.resume then [.resumed]
    else if key = HostKey.restart then [.restarted]
    else []
  | _ => []

end Cue

def operationsOf (cues : List Cue) : List Operation :=
  cues.flatMap Cue.operations

def marksOf (cues : List Cue) : List Mark :=
  cues.flatMap Cue.marks

def messagesOf (cues : List Cue) : List Message :=
  cues.flatMap Cue.messages

/-- Cues start the machine again or change its keys; they do nothing else to it. -/
theorem operationsOf_cases
    {cues : List Cue} {operation : Operation}
    (isDone : operation ∈ operationsOf cues) :
    operation = .reset ∨ ∃ key pressed, operation = .setKey key pressed := by
  obtain ⟨cue, _, byCue⟩ := List.mem_flatMap.mp isDone
  have byKey : ∀ key pressed, operation ∈ Cue.keyOperations key pressed →
      ∃ key pressed, operation = .setKey key pressed := by
    intro key pressed isPassed
    obtain ⟨k, _, rfl⟩ := Option.map_eq_some_iff.mp
      (Option.mem_toList.mp isPassed)
    exact ⟨_, _, rfl⟩
  unfold Cue.operations at byCue
  split at byCue
  · split at byCue
    · exact Or.inl (List.mem_singleton.mp byCue)
    · exact Or.inr (byKey _ _ byCue)
  · exact Or.inr (byKey _ _ byCue)
  · cases byCue

namespace Session

theorem pass_eq (s : Session) (key : HostKey) (pressed : Bool) :
    s.pass key pressed =
      { s with machine := s.machine.after (Cue.keyOperations key pressed) } := by
  cases named : key.keypadKey? <;>
    simp only [pass, Cue.keyOperations, named] <;> rfl

theorem answer_eq (s : Session) (event : Event) :
    s.answer event =
      { s with
        machine := s.machine.after (Cue.event event).operations
        journal := s.journal.record (Cue.event event).messages
        paused := pausedAfter s.paused (Cue.event event).marks } := by
  cases event with
  | keyDown key =>
      by_cases pauses : key = HostKey.pause
      · subst pauses
        rfl
      by_cases resumes : key = HostKey.resume
      · subst resumes
        rfl
      by_cases restarts : key = HostKey.restart
      · subst restarts
        rfl
      simp only [answer, Cue.operations, Cue.messages, Cue.marks, pausedAfter,
        if_neg pauses, if_neg resumes, if_neg restarts, pass_eq,
        Journal.record_nil]
      rfl
  | keyUp key =>
      simp only [answer, Cue.operations, Cue.messages, Cue.marks, pausedAfter,
        pass_eq, Journal.record_nil]
      rfl
  | _ =>
      simp only [answer, Cue.operations, Cue.messages, Cue.marks, pausedAfter,
        Journal.record_nil]
      rfl

/-! ## The cues of a frame -/

/-- The cues of a frame are all answered if none of them ends the player. -/
theorem poll_of_goesOn
    (s : Session) {cues : List Cue} (goesOn : ∀ cue ∈ cues, cue.ends = false) :
    (s.poll cues).ending = none ∧
      (s.poll cues).session =
        { s with
          machine := s.machine.after (operationsOf cues)
          wave := (s.poll cues).session.wave
          journal := s.journal.record (messagesOf cues)
          paused := pausedAfter s.paused (marksOf cues) } := by
  induction cues generalizing s with
  | nil =>
      refine ⟨rfl, ?_⟩
      simp only [poll, messagesOf, List.flatMap_nil, Journal.record_nil]
      rfl
  | cons cue rest inductionHypothesis =>
      obtain ⟨first, later⟩ := List.forall_mem_cons.mp goesOn
      cases cue with
      | samples count =>
          exact inductionHypothesis _ later
      | event event =>
          have noEnd : ¬event.ends = true := by
            rw [show event.ends = false from first]
            exact Bool.false_ne_true
          obtain ⟨isNone, answered⟩ := inductionHypothesis (s.answer event) later
          rw [poll, if_neg noEnd]
          refine ⟨isNone, ?_⟩
          rw [answered]
          simp only [answer_eq, operationsOf, messagesOf, marksOf,
            List.flatMap_cons, Machine.after_append, Journal.record_record,
            pausedAfter_append]

theorem goesOn_of_poll
    {s : Session} {cues : List Cue} (completes : (s.poll cues).ending = none) :
    ∀ cue ∈ cues, cue.ends = false := by
  induction cues generalizing s with
  | nil =>
      intro cue impossible
      cases impossible
  | cons cue rest inductionHypothesis =>
      cases cue with
      | samples count =>
          exact List.forall_mem_cons.mpr ⟨rfl, inductionHypothesis completes⟩
      | event event =>
          rw [poll] at completes
          split at completes
          · cases completes
          · rename_i noEnd
            exact List.forall_mem_cons.mpr
              ⟨Bool.eq_false_iff.mpr noEnd, inductionHypothesis completes⟩

/-- Cues after one that ends the player are not answered. -/
theorem poll_of_ends
    (s : Session) {earlier : List Cue} {last : Event} (later : List Cue)
    (goesOn : ∀ cue ∈ earlier, cue.ends = false) (ends : last.ends = true) :
    s.poll (earlier ++ .event last :: later) =
      { s.poll earlier with ending := some .finished } := by
  induction earlier generalizing s with
  | nil =>
      simp only [List.nil_append, poll, if_pos ends]
  | cons cue rest inductionHypothesis =>
      obtain ⟨first, others⟩ := List.forall_mem_cons.mp goesOn
      cases cue with
      | samples count =>
          simp only [List.cons_append, poll, inductionHypothesis _ others]
      | event event =>
          have noEnd : ¬event.ends = true := by
            rw [show event.ends = false from first]
            exact Bool.false_ne_true
          rw [List.cons_append, poll, if_neg noEnd,
            inductionHypothesis _ others, poll, if_neg noEnd]

theorem calls_poll
    (s : Session) (cues : List Cue) {call : Call}
    (isMade : call ∈ (s.poll cues).calls) : ∃ runs, call = .samples runs := by
  induction cues generalizing s with
  | nil =>
      cases isMade
  | cons cue rest inductionHypothesis =>
      cases cue with
      | samples count =>
          rw [poll] at isMade
          rcases List.mem_cons.mp isMade with rfl | isLater
          · exact ⟨_, rfl⟩
          · exact inductionHypothesis _ isLater
      | event event =>
          rw [poll] at isMade
          split at isMade
          · cases isMade
          · exact inductionHypothesis _ isMade

end Session

end ChipEight.Player

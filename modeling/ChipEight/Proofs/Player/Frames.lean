import ChipEight.Player.Launch
import ChipEight.Proofs.Player.Cues
import ChipEight.Proofs.Player.Turn

/-!
# Frames as operations on the machine

A frame that is completed is a list of operations on the machine, followed by the
taking of the redraw, and the frames played so far are one long history of the
machine.
-/

namespace ChipEight.Player

namespace Session

/-! ## A whole frame -/

theorem request_of_none
    {devices : Devices} {calls : List Call}
    (succeeds : (devices.request calls).2 = none) :
    (devices.request calls).1 = calls := by
  induction calls with
  | nil =>
      rfl
  | cons call rest inductionHypothesis =>
      cases needed : call.device? with
      | none =>
          simp only [Devices.request, needed] at succeeds ⊢
          rw [inductionHypothesis succeeds]
      | some device =>
          by_cases fails : devices.failing = some device
          · simp [Devices.request, needed, fails] at succeeds
          · simp only [Devices.request, needed, if_neg fails] at succeeds ⊢
            rw [inductionHypothesis succeeds]

/-- Requests succeed if none of them needs the device that fails. -/
theorem request_of_unneeded
    {devices : Devices} {calls : List Call}
    (unneeded : ∀ call ∈ calls, ∀ device, call.device? = some device →
      devices.failing ≠ some device) : (devices.request calls).2 = none := by
  induction calls with
  | nil =>
      rfl
  | cons call rest inductionHypothesis =>
      have succeedsLater : (devices.request rest).2 = none :=
        inductionHypothesis fun later among =>
          unneeded later (List.mem_cons_of_mem call among)
      cases needed : call.device? with
      | none =>
          simp only [Devices.request, needed, succeedsLater]
      | some device =>
          have works := unneeded call List.mem_cons_self device needed
          simp only [Devices.request, needed, if_neg works, succeedsLater]

theorem request_of_working
    {devices : Devices} (working : devices.failing = none)
    (calls : List Call) : (devices.request calls).2 = none := by
  apply request_of_unneeded
  intro _ _ device _
  rw [working]
  exact (Option.some_ne_none device).symm

theorem andThen_of_completed
    {part : Frame} {next : Session → Frame}
    (completed : (part.andThen next).ending = none) :
    part.ending = none ∧
      part.andThen next =
        { next part.session with
          calls := part.calls ++ (next part.session).calls } := by
  cases ended : part.ending with
  | none =>
      simp only [Frame.andThen, ended, and_self]
  | some ending =>
      simp only [Frame.andThen, ended, reduceCtorEq] at completed

/-- What is done to the machine in a frame before its redraw is taken. -/
def frameOperations (stage : Stage) (s : Session) (cues : List Cue) :
    List Operation :=
  operationsOf cues ++ (s.poll cues).session.turnOperations stage

def frameFault (stage : Stage) (s : Session) (cues : List Cue) : Option Fault :=
  (s.poll cues).session.turnFault stage

/-- The marks of a frame: the control keys that go down in it and then the refusal
that ends the machine's turn. -/
def frameMarks (stage : Stage) (s : Session) (cues : List Cue) : List Mark :=
  marksOf cues ++ (s.frameFault stage cues).toList.map fun _ => .fault

def frameMessages (stage : Stage) (s : Session) (cues : List Cue) :
    List Message :=
  let polled := (s.poll cues).session
  messagesOf cues ++
    ((polled.machine.run (polled.turnOperations stage)).messages ++
      (s.frameFault stage cues).toList.map .stopped)

def drawingIfDue (stage : Stage) (m : Machine) : List Call :=
  if m.redraw then Canvas.drawing stage.scale m.screen else []

def beepChange (wasBeeping sounding : Bool) : List Call :=
  if sounding = wasBeeping then []
  else if sounding then [.resume, .title Canvas.soundingTitle]
  else [.pause, .title Canvas.quietTitle]

theorem draw_of_completed
    {stage : Stage} {s : Session} (completed : (s.draw stage).ending = none) :
    s.draw stage =
      { session := { s with machine := s.machine.takeRedraw.2 }
        calls := drawingIfDue stage s.machine } := by
  cases isDue : s.machine.redraw with
  | true =>
      simp only [draw, Machine.takeRedraw, isDue, if_pos,
        Option.map_eq_none_iff] at completed
      simp only [draw, Machine.takeRedraw, drawingIfDue, isDue, if_pos,
        completed, request_of_none completed, Option.map_none]
  | false =>
      simp [draw, Machine.takeRedraw, drawingIfDue, isDue]

theorem beep_eq (s : Session) :
    s.beep =
      { session := { s with beeping := s.machine.sounding }
        calls := beepChange s.beeping s.machine.sounding } := by
  by_cases same : s.machine.sounding = s.beeping
  · simp only [beep, beepChange, if_pos same]
    rw [same]
  · simp only [beep, beepChange, if_neg same]

/-- A frame that is completed answers all its cues, lets the machine have its turn
and then draws the screen if it is due and sees to the beep. -/
theorem frame_of_completed
    {stage : Stage} {s : Session} {cues : List Cue}
    (completed : (s.frame stage cues).ending = none) :
    let turned := s.machine.after (s.frameOperations stage cues)
    (∀ cue ∈ cues, cue.ends = false) ∧
      s.frame stage cues =
        { session :=
            { machine := turned.takeRedraw.2
              wave := (s.poll cues).session.wave
              journal := s.journal.record (s.frameMessages stage cues)
              paused := pausedAfter s.paused (s.frameMarks stage cues)
              beeping := turned.sounding }
          calls := (s.poll cues).calls ++
            (drawingIfDue stage turned ++
              beepChange s.beeping turned.sounding) } := by
  intro turned
  obtain ⟨polled, inFull⟩ := andThen_of_completed completed
  have rest := completed
  rw [frame, inFull] at rest
  obtain ⟨drew, afterwards⟩ := andThen_of_completed rest
  have goesOn := goesOn_of_poll polled
  have answered := (s.poll_of_goesOn goesOn).2
  have tookTurn :
      (s.poll cues).session.takeTurn stage =
        { machine := turned
          wave := (s.poll cues).session.wave
          journal := s.journal.record (s.frameMessages stage cues)
          paused := pausedAfter s.paused (s.frameMarks stage cues)
          beeping := s.beeping } := by
    have machine := congrArg Session.machine answered
    have journal := congrArg Session.journal answered
    have paused := congrArg Session.paused answered
    have beeping := congrArg Session.beeping answered
    have stops :
        (pausedAfter s.paused (marksOf cues) ||
            (s.frameFault stage cues).isSome) =
          pausedAfter s.paused (s.frameMarks stage cues) := by
      rw [frameMarks, pausedAfter_append]
      cases s.frameFault stage cues <;> simp [pausedAfter, Mark.halts]
    rw [takeTurn_eq, ← stops]
    simp only [machine, journal, paused, beeping, frameMessages, frameFault,
      Journal.record_record, turned, frameOperations, Machine.after_append]
  refine ⟨goesOn, ?_⟩
  rw [frame, inFull, afterwards, draw_of_completed drew, beep_eq, tookTurn]
  rfl

/-- If the devices work, a frame is completed unless an event ends the player. -/
theorem completed_of_working
    {stage : Stage} (working : stage.devices.failing = none) (s : Session)
    {cues : List Cue} (goesOn : ∀ cue ∈ cues, cue.ends = false) :
    (s.frame stage cues).ending = none := by
  have drew : ∀ turned : Session, (turned.draw stage).ending = none := by
    intro turned
    cases isDue : turned.machine.redraw <;>
      simp [draw, Machine.takeRedraw, isDue, request_of_working working]
  simp only [frame, Frame.andThen, (s.poll_of_goesOn goesOn).1, drew, beep_eq]

/-- An event that ends the player ends the frame before the machine's turn. -/
theorem frame_of_ends
    (stage : Stage) (s : Session) {earlier : List Cue} {last : Event}
    (later : List Cue) (goesOn : ∀ cue ∈ earlier, cue.ends = false)
    (ends : last.ends = true) :
    s.frame stage (earlier ++ .event last :: later) =
      { s.poll earlier with ending := some .finished } := by
  rw [frame, s.poll_of_ends later goesOn ends]
  rfl

/-! ## Frames one after the other -/

/-- The player starts with the session of the machine into which the program has
been loaded. -/
theorem session_of_prepare
    {host : Host} {choices : CommandLine.Choices} {program : List Byte}
    {s : Session} (accepted : prepare host choices program = .ok s) :
    s = opening host choices
      ((Machine.powerOn choices.settings host.entropy).load program) := by
  simp only [prepare] at accepted
  split at accepted
  · cases accepted
  · exact (Except.ok.inj accepted).symm

def through (stage : Stage) (s : Session) : List (List Cue) → Session
  | [] => s
  | cues :: rest => (s.frame stage cues).session.through stage rest

def Completes (stage : Stage) (s : Session) : List (List Cue) → Prop
  | [] => True
  | cues :: rest =>
    (s.frame stage cues).ending = none ∧
      (s.frame stage cues).session.Completes stage rest

theorem completes_of_working
    {stage : Stage} (working : stage.devices.failing = none) (s : Session)
    {frames : List (List Cue)}
    (goesOn : ∀ cues ∈ frames, ∀ cue ∈ cues, cue.ends = false) :
    s.Completes stage frames := by
  induction frames generalizing s with
  | nil =>
      trivial
  | cons cues rest inductionHypothesis =>
      obtain ⟨now, later⟩ := List.forall_mem_cons.mp goesOn
      exact ⟨completed_of_working working s now, inductionHypothesis _ later⟩

/-- What every completed frame keeps is still so after some of them. -/
theorem through_induction
    {stage : Stage} {motive : Session → Prop}
    (keeps : ∀ s cues, motive s → (s.frame stage cues).ending = none →
      motive (s.frame stage cues).session)
    {s : Session} {frames : List (List Cue)}
    (atStart : motive s) (completes : s.Completes stage frames) :
    motive (s.through stage frames) := by
  induction frames generalizing s with
  | nil =>
      exact atStart
  | cons cues rest inductionHypothesis =>
      exact inductionHypothesis (keeps s cues atStart completes.1) completes.2

def callsThrough (stage : Stage) (s : Session) :
    List (List Cue) → List (List Call)
  | [] => []
  | cues :: rest =>
    (s.frame stage cues).calls ::
      (s.frame stage cues).session.callsThrough stage rest

/-- What is done to the machine in some frames, the taking of the redraw at the
end of each included. -/
def operationsThrough (stage : Stage) (s : Session) :
    List (List Cue) → List Operation
  | [] => []
  | cues :: rest =>
    s.frameOperations stage cues ++
      .takeRedraw :: (s.frame stage cues).session.operationsThrough stage rest

theorem machine_frame
    {stage : Stage} {s : Session} {cues : List Cue}
    (completed : (s.frame stage cues).ending = none) :
    (s.frame stage cues).session.machine =
      s.machine.after (s.frameOperations stage cues ++ [.takeRedraw]) := by
  rw [(frame_of_completed completed).2, Machine.after_append]
  rfl

theorem machine_through
    {stage : Stage} {s : Session} {frames : List (List Cue)}
    (completes : s.Completes stage frames) :
    (s.through stage frames).machine =
      s.machine.after (s.operationsThrough stage frames) := by
  induction frames generalizing s with
  | nil =>
      rfl
  | cons cues rest inductionHypothesis =>
      rw [through, inductionHypothesis completes.2, machine_frame completes.1,
        operationsThrough, ← Machine.after_append, List.append_assoc,
        List.singleton_append]

theorem through_append
    (stage : Stage) (s : Session) (earlier later : List (List Cue)) :
    s.through stage (earlier ++ later) =
      (s.through stage earlier).through stage later := by
  induction earlier generalizing s with
  | nil =>
      rfl
  | cons cues rest inductionHypothesis =>
      exact inductionHypothesis _

theorem completes_append_iff
    (stage : Stage) (s : Session) (earlier later : List (List Cue)) :
    s.Completes stage (earlier ++ later) ↔
      s.Completes stage earlier ∧
        (s.through stage earlier).Completes stage later := by
  induction earlier generalizing s with
  | nil =>
      simp only [List.nil_append, Completes, through, true_and]
  | cons cues rest inductionHypothesis =>
      simp only [List.cons_append, Completes, through, inductionHypothesis,
        and_assoc]

theorem operationsThrough_append
    (stage : Stage) (s : Session) (earlier later : List (List Cue)) :
    s.operationsThrough stage (earlier ++ later) =
      s.operationsThrough stage earlier ++
        (s.through stage earlier).operationsThrough stage later := by
  induction earlier generalizing s with
  | nil =>
      rfl
  | cons cues rest inductionHypothesis =>
      simp only [List.cons_append, operationsThrough, through,
        inductionHypothesis, List.append_assoc]

theorem play_of_completes
    {stage : Stage} {s : Session} {earlier : List (List Cue)}
    (completes : s.Completes stage earlier) (later : List (List Cue)) :
    s.play stage (earlier ++ later) =
      let rest := (s.through stage earlier).play stage later
      { rest with calls := s.callsThrough stage earlier ++ rest.calls } := by
  induction earlier generalizing s with
  | nil =>
      rfl
  | cons cues rest inductionHypothesis =>
      simp only [List.cons_append, play, completes.1, through, callsThrough,
        inductionHypothesis completes.2]

theorem perform_of_completes
    {stage : Stage} {s : Session} {frames : List (List Cue)}
    (ready : (stage.devices.request (setup stage s)).2 = none)
    (completes : s.Completes stage frames) (later : List (List Cue)) :
    (perform stage s (frames ++ later)).calls =
      setup stage s :: (s.callsThrough stage frames ++
        ((s.through stage frames).play stage later).calls) := by
  rw [perform]
  split
  · rename_i requested
    rw [requested] at ready
    cases ready
  · rename_i made requested
    have inFull : made = setup stage s := by
      rw [← request_of_none ready, requested]
    rw [inFull, play_of_completes completes]

end Session

/-- A host whose devices all work. -/
def readyHost : Host where
  read _ := .ok []
  threshold := some .error
  devices := {}
  entropy := Vector.replicate 8 0

end ChipEight.Player

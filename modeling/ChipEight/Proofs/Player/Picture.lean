import ChipEight.Proofs.Player.Frames
import ChipEight.Proofs.Player.Window
import ChipEight.Proofs.Redraw

/-!
# The picture is never stale

Every completed frame takes the redraw, so at the start of a frame none is due.
A frame draws exactly if its operations have painted; if they have not, the screen
is still the one that is shown.
-/

namespace ChipEight.Player

theorem present_mem_drawing (scale : Nat) (screen : Screen) :
    Call.present ∈ Canvas.drawing scale screen := by
  simp [Canvas.drawing]

namespace Session

/-! ## One frame -/

theorem takeRedraw_notMem_frameOperations
    (stage : Stage) (s : Session) (cues : List Cue) :
    .takeRedraw ∉ s.frameOperations stage cues := by
  intro taken
  rcases List.mem_append.mp taken with byCue | inTurn
  · rcases operationsOf_cases byCue with impossible | ⟨_, _, impossible⟩ <;>
      cases impossible
  · rcases turnOperations_cases inTurn with impossible | impossible <;>
      cases impossible

theorem calls_poll_elsewhere (s : Session) (cues : List Cue) :
    ∀ call ∈ (s.poll cues).calls, call.reachesWindow = false := by
  intro call isMade
  obtain ⟨runs, rfl⟩ := s.calls_poll cues isMade
  rfl

theorem beepChange_elsewhere (wasBeeping sounding : Bool) :
    ∀ call ∈ beepChange wasBeeping sounding, call.reachesWindow = false := by
  intro call isMade
  unfold beepChange at isMade
  split at isMade
  · cases isMade
  · split at isMade <;>
      rcases List.mem_pair.mp isMade with rfl | rfl <;> rfl

theorem redraw_frame
    {stage : Stage} {s : Session} {cues : List Cue}
    (completed : (s.frame stage cues).ending = none) :
    (s.frame stage cues).session.machine.redraw = false := by
  rw [machine_frame completed, Machine.after_append]
  rfl

/-- If no redraw is due at its start, a frame draws the screen exactly if its
operations have painted. -/
theorem drawingIfDue_of_undue
    (stage : Stage) {s : Session} (undue : s.machine.redraw = false)
    (cues : List Cue) :
    let turned := s.machine.after (s.frameOperations stage cues)
    (s.machine.Painted (s.frameOperations stage cues) →
      drawingIfDue stage turned =
        Canvas.drawing stage.scale turned.screen) ∧
    (¬s.machine.Painted (s.frameOperations stage cues) →
      drawingIfDue stage turned = [] ∧
        turned.screen = s.machine.screen) := by
  intro turned
  have due := Machine.redraw_after_iff_of_undue undue
    (s.takeRedraw_notMem_frameOperations stage cues)
  constructor
  · intro painted
    rw [drawingIfDue, if_pos (due.mpr painted)]
  · intro paintedNot
    exact ⟨if_neg (mt due.mp paintedNot),
      Machine.screen_after_of_not_painted paintedNot⟩

theorem present_mem_calls_iff
    {stage : Stage} {s : Session} {cues : List Cue}
    (undue : s.machine.redraw = false)
    (completed : (s.frame stage cues).ending = none) :
    Call.present ∈ (s.frame stage cues).calls ↔
      s.machine.Painted (s.frameOperations stage cues) := by
  obtain ⟨draws, rests⟩ := drawingIfDue_of_undue stage undue cues
  rw [(frame_of_completed completed).2, List.mem_append, List.mem_append]
  constructor
  · rintro (whilePolling | whileDrawing | whileBeeping)
    · cases s.calls_poll_elsewhere cues _ whilePolling
    · by_contra paintedNot
      rw [(rests paintedNot).1] at whileDrawing
      cases whileDrawing
    · cases beepChange_elsewhere _ _ _ whileBeeping
  · intro painted
    rw [draws painted]
    exact Or.inr (Or.inl (present_mem_drawing _ _))

/-- A frame leaves the window showing the screen if it did so at its start. -/
theorem shows_frame
    {stage : Stage} {s : Session} {cues : List Cue} {window : Window}
    (visible : 0 < stage.scale) (undue : s.machine.redraw = false)
    (completed : (s.frame stage cues).ending = none)
    (shows : window.Shows stage.scale s.machine.screen) :
    (window.takeAll (s.frame stage cues).calls).Shows stage.scale
      (s.frame stage cues).session.machine.screen := by
  obtain ⟨draws, rests⟩ := drawingIfDue_of_undue stage undue cues
  rw [(frame_of_completed completed).2, Window.takeAll_append,
    Window.takeAll_append,
    Window.takeAll_of_elsewhere window (s.calls_poll_elsewhere cues),
    Window.takeAll_of_elsewhere _ (beepChange_elsewhere _ _)]
  change (window.takeAll _).Shows stage.scale
    (s.machine.after (s.frameOperations stage cues)).screen
  by_cases painted : s.machine.Painted (s.frameOperations stage cues)
  · rw [draws painted]
    exact window.shows_drawing visible _
  · obtain ⟨noCalls, sameScreen⟩ := rests painted
    rw [noCalls, sameScreen]
    exact shows

/-! ## Frames one after the other -/

theorem redraw_through
    {stage : Stage} {s : Session} {frames : List (List Cue)}
    (undue : s.machine.redraw = false)
    (completes : s.Completes stage frames) :
    (s.through stage frames).machine.redraw = false :=
  through_induction (motive := fun s => s.machine.redraw = false)
    (fun _ _ _ => redraw_frame) undue completes

theorem shows_through
    {stage : Stage} {s : Session} {frames : List (List Cue)} {window : Window}
    (visible : 0 < stage.scale) (undue : s.machine.redraw = false)
    (completes : s.Completes stage frames)
    (shows : window.Shows stage.scale s.machine.screen) :
    (window.takeAll (s.callsThrough stage frames).flatten).Shows stage.scale
      (s.through stage frames).machine.screen := by
  induction frames generalizing s window with
  | nil =>
      exact shows
  | cons cues rest inductionHypothesis =>
      rw [callsThrough, List.flatten_cons, Window.takeAll_append]
      exact inductionHypothesis (redraw_frame completes.1) completes.2
        (shows_frame visible undue completes.1 shows)

/-- Nothing has painted in frames that present nothing. -/
theorem not_painted_of_quiet
    {stage : Stage} {s : Session} {frames : List (List Cue)}
    (undue : s.machine.redraw = false)
    (completes : s.Completes stage frames)
    (quiet : ∀ calls ∈ s.callsThrough stage frames, Call.present ∉ calls) :
    ¬s.machine.Painted (s.operationsThrough stage frames) := by
  induction frames generalizing s with
  | nil =>
      exact id
  | cons cues rest inductionHypothesis =>
      obtain ⟨quietNow, quietLater⟩ := List.forall_mem_cons.mp quiet
      have later :=
        inductionHypothesis (redraw_frame completes.1) completes.2 quietLater
      rw [machine_frame completes.1, Machine.after_append] at later
      rw [operationsThrough, Machine.painted_append_iff]
      rintro (now | impossible | painted)
      · exact quietNow ((present_mem_calls_iff undue completes.1).mpr now)
      · exact impossible
      · exact later painted

/-! ## The law of the window -/

/-- The window shows the screen before the first frame and at the end of every
completed frame.  A frame presents a picture exactly if something has painted
since one was last presented, be it before the first frame or in an earlier frame
with only quiet ones after it. -/
theorem window_never_stale
    {host : Host} {choices : CommandLine.Choices} {program : List Byte}
    {s : Session} (accepted : prepare host choices program = .ok s)
    (visible : 0 < choices.scale)
    (ready : ((stageOf host choices).devices.request
      (setup (stageOf host choices) s)).2 = none)
    {frames : List (List Cue)}
    (completes : s.Completes (stageOf host choices) frames) :
    let stage := stageOf host choices
    let calls := setup stage s :: s.callsThrough stage frames
    (∀ later, ∃ rest,
      (perform stage s (frames ++ later)).calls = calls ++ rest) ∧
    (∀ window : Window, (window.takeAll calls.flatten).Shows choices.scale
      (s.through stage frames).machine.screen) ∧
    ∀ earlier quiet cues, frames = earlier ++ (quiet ++ [cues]) →
      let before := s.through stage earlier
      (∀ made ∈ before.callsThrough stage quiet, Call.present ∉ made) →
      (Call.present ∈
          ((before.through stage quiet).frame stage cues).calls ↔
        before.machine.Painted
          (before.operationsThrough stage (quiet ++ [cues]))) := by
  intro stage calls
  have undue : s.machine.redraw = false := by
    rw [session_of_prepare accepted]
    have paintsNot :
        ¬(Machine.powerOn choices.settings host.entropy).Paints
          (.load program) := id
    exact (Machine.apply_of_not_paints paintsNot).2 (by simp)
  refine ⟨fun later => ⟨_, perform_of_completes ready completes later⟩, ?_, ?_⟩
  · intro window
    have prepared : ∀ call ∈ preparation stage.scale,
        call.reachesWindow = false := by
      simp [preparation, Call.reachesWindow]
    have showsFirst :
        (window.takeAll (setup stage s)).Shows choices.scale
          s.machine.screen := by
      rw [setup, Window.takeAll_append, Window.takeAll_append,
        Window.takeAll_of_elsewhere _ prepared]
      exact Window.shows_drawing window visible s.machine.screen
    rw [List.flatten_cons, Window.takeAll_append]
    exact shows_through visible undue completes showsFirst
  · rintro earlier quiet cues rfl before isQuiet
    obtain ⟨earlierCompletes, quietCompletes, completed, _⟩ :=
      ((s.completes_append_iff stage earlier _).trans
        (and_congr_right' (completes_append_iff stage _ quiet _))).mp completes
    have undueBefore := redraw_through undue earlierCompletes
    have undueThere := redraw_through undueBefore quietCompletes
    have nothingPainted :=
      not_painted_of_quiet undueBefore quietCompletes isQuiet
    rw [present_mem_calls_iff undueThere completed,
      operationsThrough_append, Machine.painted_append_iff,
      ← machine_through quietCompletes, operationsThrough,
      Machine.painted_append_iff]
    constructor
    · intro painted
      exact Or.inr (Or.inl painted)
    · rintro (impossible | painted | impossible | impossible)
      · exact absurd impossible nothingPainted
      · exact painted
      · cases impossible
      · cases impossible

def doubleSize : CommandLine.Choices :=
  { program := "zero", scale := 2, cyclesPerFrame := 3 }

/-- A program that draws the digit zero in the corner of the screen and then does
nothing any more. -/
def digitZero : Session :=
  opening readyHost doubleSize
    ((Machine.powerOn {} readyHost.entropy).load
      [0xA0, 0x00, 0xD0, 0x05, 0x12, 0x04])

def pausing : List Cue := [.event (.keyDown HostKey.pause)]

def resuming : List Cue := [.event (.keyDown HostKey.resume)]

/-- While the first frame is paused nothing is presented.  The next one goes on and
presents the digit. -/
theorem digitZero_not_stale :
    let stage := stageOf readyHost doubleSize
    let paused := digitZero.through stage [pausing]
    let calls := setup stage digitZero ::
      digitZero.callsThrough stage [pausing, resuming]
    Call.present ∈ (paused.frame stage resuming).calls ∧
      (Window.takeAll ⟨0, fun _ _ => 0, fun _ _ => 0⟩ calls.flatten).Shows
        doubleSize.scale
        (digitZero.through stage [pausing, resuming]).machine.screen := by
  have accepted :
      prepare readyHost doubleSize [0xA0, 0x00, 0xD0, 0x05, 0x12, 0x04] =
        .ok digitZero :=
    rfl
  have working : (stageOf readyHost doubleSize).devices.failing = none := rfl
  have completes :
      digitZero.Completes (stageOf readyHost doubleSize)
        [pausing, resuming] :=
    completes_of_working working _ (by decide)
  have quiet :
      ∀ made ∈ digitZero.callsThrough (stageOf readyHost doubleSize) [pausing],
        Call.present ∉ made := by
    decide +kernel
  have painted :
      digitZero.machine.Painted
        (digitZero.operationsThrough (stageOf readyHost doubleSize)
          [pausing, resuming]) := by
    decide +kernel
  obtain ⟨_, shows, presents⟩ :=
    window_never_stale accepted (by decide) (request_of_working working _)
      completes
  exact ⟨(presents [] [pausing] resuming rfl quiet).mpr painted, shows _⟩

end Session

end ChipEight.Player

import ChipEight.Machine.Cycle
import ChipEight.Player.Canvas
import ChipEight.Player.Keyboard

/-!
# Playing frame by frame

In each frame the player answers the events that have come in, runs the machine
unless it is paused, draws the screen if it is due and starts or stops the beep.
A refusal of the machine pauses the player.
-/

namespace ChipEight.Player

/-- What comes in during a frame: an event, or the sound card asking for
samples. -/
inductive Cue
  | event (event : Event)
  | samples (count : Nat)
deriving DecidableEq, Repr

/-- What does not change while a program is played. -/
structure Stage where
  scale : Nat
  cyclesPerFrame : Nat
  devices : Devices
deriving DecidableEq, Repr

/-- The state of the player between frames. -/
structure Session where
  machine : Machine
  wave : SquareWave
  journal : Journal
  paused : Bool := false
  beeping : Bool := false

/-- How playing ends. -/
inductive Ending
  | exit (code : Nat)
  | finished
  | failed (report : String)
deriving DecidableEq, Repr

/-- The session after a part of a frame, the requests made in that part, and how
playing ends if it ends there. -/
structure Frame where
  session : Session
  calls : List Call := []
  ending : Option Ending := none

/-- Go on with the next part of a frame unless playing has ended. -/
def Frame.andThen (part : Frame) (next : Session → Frame) : Frame :=
  match part.ending with
  | some _ => part
  | none =>
    let later := next part.session
    { later with calls := part.calls ++ later.calls }

namespace Session

/-- Add to the journal. -/
def tell (s : Session) (messages : List Message) : Session :=
  { s with journal := s.journal.record messages }

/-! ## Events -/

/-- Press or release the key of the keypad that a host's key stands for, if it
stands for one. -/
def pass (s : Session) (key : HostKey) (pressed : Bool) : Session :=
  match key.keypadKey? with
  | some k =>
    { s with machine := s.machine.setKey (k.setWidth 8) pressed }
  | none => s

/-- Answer an event that does not end the player. -/
def answer (s : Session) : Event → Session
  | .keyDown key =>
    if key = HostKey.pause then { s with paused := true }.tell [.paused]
    else if key = HostKey.resume then { s with paused := false }.tell [.resumed]
    else if key = HostKey.restart then
      { s with machine := s.machine.reset, paused := false }.tell [.restarted]
    else s.pass key true
  | .keyUp key => s.pass key false
  | _ => s

/-- Answer the cues of a frame in order, up to one that ends the player. -/
def poll (s : Session) : List Cue → Frame
  | [] => { session := s }
  | .samples count :: rest =>
    let played := s.wave.play count
    let later := { s with wave := played.2 }.poll rest
    { later with
      calls := .samples (SquareWave.runs played.1) :: later.calls }
  | .event event :: rest =>
    if event.ends then { session := s, ending := some .finished }
    else (s.answer event).poll rest

/-! ## The machine's turn -/

/-- Run cycles up to a refusal, which is told and pauses the player. -/
def runCycles (s : Session) : Nat → Session
  | 0 => s
  | n + 1 =>
    let outcome := s.machine.cycle
    let ran := { s with machine := outcome.machine }.tell outcome.messages
    match outcome.reply with
    | .refused fault => { ran with paused := true }.tell [.stopped fault]
    | _ => ran.runCycles n

/-- Unless paused, run the cycles of a frame and then count the timers down. -/
def takeTurn (stage : Stage) (s : Session) : Session :=
  if s.paused then s
  else
    let ran := s.runCycles stage.cyclesPerFrame
    { ran with machine := ran.machine.tick }

/-! ## The devices' turn -/

/-- Draw the screen if it is due, and take it as drawn.  A failure ends the
player. -/
def draw (stage : Stage) (s : Session) : Frame :=
  let taken := s.machine.takeRedraw
  let drawn := { s with machine := taken.2 }
  if taken.1 then
    let made := stage.devices.request
      (Canvas.drawing stage.scale s.machine.screen)
    { session := drawn, calls := made.1, ending := made.2.map .failed }
  else { session := drawn }

/-- Start or stop the beep when the machine's sound starts or stops. -/
def beep (s : Session) : Frame :=
  let sounding := s.machine.sounding
  if sounding = s.beeping then { session := s }
  else
    let calls : List Call :=
      if sounding then [.resume, .title Canvas.soundingTitle]
      else [.pause, .title Canvas.quietTitle]
    { session := { s with beeping := sounding }, calls := calls }

/-! ## Frames -/

/-- Play one frame: first the cues, then the machine, then the devices. -/
def frame (stage : Stage) (s : Session) (cues : List Cue) : Frame :=
  (s.poll cues).andThen fun polled =>
    ((polled.takeTurn stage).draw stage).andThen beep

/-- A session that has ended, with the requests made frame by frame. -/
structure Finale where
  session : Session
  calls : List (List Call)
  ending : Ending

/-- Play frames until one ends the player.  When no more cues come the window
is closed. -/
def play (stage : Stage) (s : Session) : List (List Cue) → Finale
  | [] =>
    let last := s.poll [.event .quit]
    { session := last.session, calls := [last.calls], ending := .finished }
  | cues :: rest =>
    let played := s.frame stage cues
    match played.ending with
    | some ending =>
      { session := played.session, calls := [played.calls], ending := ending }
    | none =>
      let later := played.session.play stage rest
      { later with calls := played.calls :: later.calls }

end Session

end ChipEight.Player

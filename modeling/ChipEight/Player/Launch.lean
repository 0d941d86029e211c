import ChipEight.CommandLine
import ChipEight.Player.Files
import ChipEight.Player.Session

/-!
# From the command line to the end

The whole life of the player: the command line is read, then the program, then
the devices are set up, and then frames are played to the end.
-/

namespace ChipEight.Player

/-- What surrounds the player: the files it can read, the detail of its journal,
its devices and the key for random bytes without a seed. -/
structure Host where
  read : String → Except FileRefusal (List Byte)
  threshold : Threshold
  devices : Devices
  entropy : ChaCha.Key

/-- All that can be seen of a player: how it ended, its journal, and the requests
it made while setting up and then in each frame. -/
structure Report where
  ending : Ending
  messages : List Message
  calls : List (List Call)
deriving DecidableEq, Repr

/-- The pitch of the beep. -/
def toneFrequency : Binary32 := .ofInt 440

/-- The beep for a sound card that plays some samples a second. -/
def toneFor (frequency : Int) (volume : Binary32) : SquareWave where
  increment := toneFrequency.div (.ofInt frequency)
  phase := .zero false
  volume := volume

/-- The requests that set the devices up, before the first drawing. -/
def preparation (scale : Nat) : List Call :=
  [.start, .video, .audio, .openAudio 44100 1,
    .window Canvas.quietTitle
      (Canvas.windowWidth scale) (Canvas.windowHeight scale),
    .renderer]

/-- The requests before the first frame: the devices, one drawing of the screen
and the events. -/
def setup (stage : Stage) (s : Session) : List Call :=
  preparation stage.scale ++
    Canvas.drawing stage.scale s.machine.screen ++ [.events]

/-- The session of a loaded machine. -/
def opening (host : Host) (choices : CommandLine.Choices)
    (loaded : Outcome) : Session :=
  let s : Session := {
    machine := loaded.machine
    wave := toneFor host.devices.audioFrequency choices.volume
    journal := { threshold := host.threshold } }
  (s.tell loaded.messages).tell [.running choices.program]

/-- What does not change while the program that was chosen is played. -/
def stageOf (host : Host) (choices : CommandLine.Choices) : Stage where
  scale := choices.scale
  cyclesPerFrame := choices.cyclesPerFrame
  devices := host.devices

/-- The session before the first frame, or the report of a program that does not
fit. -/
def prepare (host : Host) (choices : CommandLine.Choices)
    (program : List Byte) : Except String Session :=
  let loaded :=
    (Machine.powerOn choices.settings host.entropy).load program
  match loaded.reply with
  | .refused fault => .error fault.text
  | _ => .ok (opening host choices loaded)

/-! ## The whole life -/

/-- Set the devices up and play. -/
def perform (stage : Stage) (s : Session) (frames : List (List Cue)) :
    Report :=
  match stage.devices.request (setup stage s) with
  | (made, some report) => ⟨.failed report, s.journal.toList, [made]⟩
  | (made, none) =>
    let finale := s.play stage frames
    ⟨finale.ending, finale.session.journal.toList, made :: finale.calls⟩

/-- Read the program that was chosen and play it. -/
def start (host : Host) (choices : CommandLine.Choices)
    (frames : List (List Cue)) : Report :=
  match host.read choices.program with
  | .error refusal => ⟨.failed refusal.text, [], [[]]⟩
  | .ok program =>
    match prepare host choices program with
    | .error report => ⟨.failed report, [], [[]]⟩
    | .ok s => perform (stageOf host choices) s frames

/-- The player from its command line on, given without the name by which it was
called. -/
def launch (host : Host) (arguments : List String)
    (frames : List (List Cue)) : Report :=
  match CommandLine.read arguments with
  | .error stop => ⟨.exit stop.exitCode, [], [[]]⟩
  | .ok choices => start host choices frames

end ChipEight.Player

import ChipEight.Screen
import ChipEight.Sound.SquareWave
import ChipEight.Word

/-!
# The host's devices

What the player asks of the host's window and sound card, as data, and which of
those requests may fail.
-/

namespace ChipEight.Player

/-- A request to the host's devices. -/
inductive Call
  | start
  | video
  | audio
  | openAudio (frequency channels : Nat)
  | window (title : String) (width height : Nat)
  | renderer
  | events
  | color (red green blue alpha : Byte)
  | clear
  | box (left top right bottom : Nat) (color : BitVec 32)
  | present
  | resume
  | pause
  | title (text : String)
  | samples (runs : List (Binary32 × Nat))
deriving DecidableEq, Repr

/-- The part of the host that a request needs, for the requests that may
fail. -/
inductive Device
  | start
  | video
  | audio
  | sound
  | window
  | renderer
  | events
  | box
deriving DecidableEq, Repr

/-- The part of the host that a request needs. -/
def Call.device? : Call → Option Device
  | start => some .start
  | video => some .video
  | audio => some .audio
  | openAudio _ _ => some .sound
  | window _ _ _ => some .window
  | renderer => some .renderer
  | events => some .events
  | box _ _ _ _ _ => some .box
  | _ => none

/-- The report of a failure.  The window's parts put a mark in front of what the
host says. -/
def Device.failure (device : Device) (reason : String) : String :=
  match device with
  | window => "SDL error: " ++ reason
  | renderer => "SDL error: " ++ reason
  | _ => reason

/-- A host whose devices work, but for one that always fails. -/
structure Devices where
  failing : Option Device := none
  reason : String := ""
  audioFrequency : Int := 44100
deriving DecidableEq, Repr

/-- Make requests in order up to the first that fails.  The failing request is
made too, and the report of the failure is the second component. -/
def Devices.request (devices : Devices) : List Call → List Call × Option String
  | [] => ([], none)
  | call :: rest =>
    match call.device? with
    | some device =>
      if devices.failing = some device then
        ([call], some (device.failure devices.reason))
      else
        let (made, failure) := devices.request rest
        (call :: made, failure)
    | none =>
      let (made, failure) := devices.request rest
      (call :: made, failure)

end ChipEight.Player

import ChipEight.Player.Launch
import ChipEight.Player.Script

/-!
# The program

Plays a program with lines of text for devices: each line on standard input holds
the cues of a frame, the requests go to standard output and the journal to
standard error.
-/

namespace ChipEight.Program

open ChipEight.Player

/-- The message for a command line that was turned away. -/
def complaint : CommandLine.Stop → String
  | .asked .help =>
    "usage: chip8 [options] ROM\n" ++
      "  -s, --scale N              window points per pixel, 1 to 64\n" ++
      "      --volume X             volume of the beep, 0 to 1\n" ++
      "  -c, --cycles-per-frame N   instructions per frame\n" ++
      "      --unknown-opcode P     ignore or fail\n" ++
      "      --seed N               seed of the random numbers"
  | .asked .version => "chip8 0.1.0"
  | .programMissing => "a program is required"
  | .programEmpty => "the name of the program is empty"
  | .argumentUnknown argument => "unexpected argument " ++ argument
  | .valueMissing setting => "no value for --" ++ setting.longName
  | .valueUnwanted request => "--" ++ request.longName ++ " takes no value"
  | .valueRejected setting => "invalid value for --" ++ setting.longName
  | .policyUnknown => "the policy is ignore or fail"
  | .repeated setting => "--" ++ setting.longName ++ " is given twice"

/-- Eight words from random bytes. -/
def keyOfBytes (bytes : ByteArray) : ChaCha.Key :=
  Vector.ofFn fun k =>
    (List.range 4).foldl
      (fun word j => word * 256 + (bytes.data.getD (4 * k.val + j) 0).toUInt32)
      0

/-- Write out requests and the journal, which is then empty again. -/
def publish (s : Session) (calls : List Call) : IO Session := do
  for call in calls do
    IO.println call.line
  for message in s.journal.toList do
    IO.eprintln message.line
  (← IO.getStdout).flush
  return { s with journal := { s.journal with kept := #[] } }

/-- Play a frame for each line of input, until one ends the player. -/
partial def playLines (stage : Stage) (s : Session) : IO Ending := do
  let line ← (← IO.getStdin).getLine
  let words := (line.trimAscii.toString.splitOn " ").filter fun word => word ≠ ""
  let cues := if line.isEmpty then [.event .quit] else Cue.ofWords words
  let played := s.frame stage cues
  let next ← publish played.session played.calls
  match played.ending with
  | some ending => return ending
  | none => playLines stage next

/-- Why a program could not be read. -/
def reportOf : IO.Error → String
  | .noFileOrDirectory _ _ _ => FileRefusal.missing.text
  | .inappropriateType _ 21 _ => FileRefusal.isDirectory.text
  | .inappropriateType _ _ _ => FileRefusal.notDirectory.text
  | .invalidArgument _ 22 _ => FileRefusal.holdsNul.text
  | .invalidArgument _ _ _ => FileRefusal.nameTooLong.text
  | problem => toString problem

/-- Report a failure. -/
def fail (report : String) : IO UInt32 := do
  IO.eprintln ("Error: " ++ report)
  return 1

/-- Play the program that was chosen. -/
def playChosen (choices : CommandLine.Choices) : IO UInt32 := do
  let level ← IO.getEnv "CHIP8_LOG"
  let entropy ← IO.getRandomBytes 32
  let content ←
    try pure (Except.ok (← IO.FS.readBinFile choices.program))
    catch problem => pure (Except.error (reportOf problem))
  match content with
  | .error report => fail report
  | .ok bytes =>
    let program := bytes.toList.map fun b => b.toBitVec
    let host : Host := {
      read := fun _ => .ok program
      threshold := (level.bind Threshold.ofName?).getD (some .info)
      devices := {}
      entropy := keyOfBytes entropy }
    let stage := stageOf host choices
    match prepare host choices program with
    | .error report => fail report
    | .ok s =>
      let s ← publish s (setup stage s)
      match ← playLines stage s with
      | .failed report => fail report
      | _ => return 0

end ChipEight.Program

def main (arguments : List String) : IO UInt32 := do
  match ChipEight.CommandLine.read arguments with
  | .ok choices => ChipEight.Program.playChosen choices
  | .error stop =>
    IO.eprintln (ChipEight.Program.complaint stop)
    return UInt32.ofNat stop.exitCode

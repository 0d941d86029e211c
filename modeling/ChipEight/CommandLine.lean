import ChipEight.Arguments
import ChipEight.Machine.Basic
import ChipEight.Sound.Volume

/-!
# Command lines

The options and requests of the player and the values that the options take.  A
command line names a program and may set each of five options once; help or the
version may be asked for instead.
-/

namespace ChipEight.CommandLine

/-- An option that takes a value. -/
inductive Setting
  | scale
  | volume
  | cyclesPerFrame
  | unknownOpcode
  | seed
deriving DecidableEq, Repr

/-- Something asked for instead of playing a program. -/
inductive Request
  | help
  | version
deriving DecidableEq, Repr

/-- Why a text is no value of an option. -/
inductive Refusal
  | policyUnknown
  | valueRejected (setting : Setting)
deriving DecidableEq, Repr

/-- Why reading a command line ends without choices. -/
abbrev Stop := Arguments.Stop Setting Request Refusal

namespace Stop

/-- The text given for the policy names none. -/
@[match_pattern] abbrev policyUnknown : Stop := .valueRefused .policyUnknown

/-- The text given for an option is none of its values. -/
@[match_pattern] abbrev valueRejected (setting : Setting) : Stop :=
  .valueRefused (.valueRejected setting)

/-- The exit code of a program that stops so: only a request is no error. -/
def exitCode : Stop → Nat
  | .asked _ => 0
  | _ => 2

end Stop

/-! ## Names -/

/-- The long name of an option. -/
def Setting.longName : Setting → String
  | scale => "scale"
  | volume => "volume"
  | cyclesPerFrame => "cycles-per-frame"
  | unknownOpcode => "unknown-opcode"
  | seed => "seed"

/-- The letter of an option, if it has one. -/
def Setting.letter? : Setting → Option Char
  | scale => some 's'
  | cyclesPerFrame => some 'c'
  | _ => none

/-- The long name of a request. -/
def Request.longName : Request → String
  | help => "help"
  | version => "version"

/-- The letter of a request. -/
def Request.letter : Request → Char
  | help => 'h'
  | version => 'V'

/-! ## Values -/

/-- What an option stands for. -/
abbrev Setting.Value : Setting → Type
  | scale => Nat
  | volume => Binary32
  | cyclesPerFrame => Nat
  | unknownOpcode => UnknownPolicy
  | seed => UInt64

/-- A whole number with a sign or none. -/
def readInteger? : List Char → Option Int
  | '-' :: digits => (Numeral.readDecimal? digits).map fun n => -(n : Int)
  | '+' :: digits => (Numeral.readDecimal? digits).map Int.ofNat
  | digits => (Numeral.readDecimal? digits).map Int.ofNat

/-- A whole number from `least` to `greatest`.  The sign of zero does not
matter. -/
def readBetween? (least greatest : Nat) (text : List Char) : Option Nat :=
  match readInteger? text with
  | some n =>
    if (least : Int) ≤ n ∧ n ≤ (greatest : Int) then some n.toNat else none
  | none => none

/-- A seed: a number of at most sixty-four bits, with a plus sign or none. -/
def readSeed? (text : List Char) : Option UInt64 :=
  let digits := match text with
    | '+' :: digits => digits
    | digits => digits
  match Numeral.readDecimal? digits with
  | some n => if n < UInt64.size then some (UInt64.ofNat n) else none
  | none => none

/-- The policy with a name. -/
def readPolicy? (text : List Char) : Option UnknownPolicy :=
  if text = "ignore".toList then some .ignore
  else if text = "fail".toList then some .fail
  else none

/-- The value of an option that a text stands for. -/
def Setting.readValue (setting : Setting) (text : List Char) :
    Except Refusal setting.Value :=
  match setting with
  | .scale =>
    match readBetween? 1 64 text with
    | some n => .ok n
    | none => .error (.valueRejected .scale)
  | .volume =>
    match Volume.read (String.ofList text) with
    | .ok x => .ok x
    | .error _ => .error (.valueRejected .volume)
  | .cyclesPerFrame =>
    match readBetween? 0 0xFFFFFFFF text with
    | some n => .ok n
    | none => .error (.valueRejected .cyclesPerFrame)
  | .unknownOpcode =>
    match readPolicy? text with
    | some policy => .ok policy
    | none => .error .policyUnknown
  | .seed =>
    match readSeed? text with
    | some n => .ok n
    | none => .error (.valueRejected .seed)

/-- What can be given on a command line of the player. -/
def declared : Arguments.Declaration Setting Request Refusal Setting.Value where
  settings := [.scale, .volume, .cyclesPerFrame, .unknownOpcode, .seed]
  longName := Setting.longName
  letter? := Setting.letter?
  requests := [.help, .version]
  requestName := Request.longName
  requestLetter := Request.letter
  readValue := Setting.readValue
  named := by
    intro setting
    cases setting <;> decide
  name_nonempty := by
    intro setting
    cases setting <;> decide
  equals_notMem_name := by
    intro setting
    cases setting <;> decide
  lettered := by
    intro setting letter has
    cases setting <;> cases has <;> decide
  letter_ne_hyphen := by
    intro setting
    cases setting <;> decide

/-! ## Choices -/

/-- What a command line chooses. -/
structure Choices where
  program : String
  scale : Nat := 10
  volume : Binary32 := Volume.standard
  cyclesPerFrame : Nat := 10
  unknown : UnknownPolicy := .ignore
  seed : Option UInt64 := none
deriving DecidableEq, Repr

namespace Choices

/-- The machine's part of the choices. -/
def settings (choices : Choices) : Settings :=
  { unknown := choices.unknown, seed := choices.seed }

/-- The choices with the value that was given for an option. -/
def set (choices : Choices) : Sigma Setting.Value → Choices
  | ⟨.scale, n⟩ => { choices with scale := n }
  | ⟨.volume, x⟩ => { choices with volume := x }
  | ⟨.cyclesPerFrame, n⟩ => { choices with cyclesPerFrame := n }
  | ⟨.unknownOpcode, policy⟩ => { choices with unknown := policy }
  | ⟨.seed, n⟩ => { choices with seed := some n }

/-- The choices that all values given make. -/
def ofReading (reading : Arguments.Reading Setting.Value) : Choices :=
  reading.values.foldl set { program := reading.program }

end Choices

/-- The choices of a command line, given without the name by which the program
was called. -/
def read (arguments : List String) : Except Stop Choices :=
  (declared.read arguments).map Choices.ofReading

end ChipEight.CommandLine

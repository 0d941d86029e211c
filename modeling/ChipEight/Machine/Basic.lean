import ChipEight.CallStack
import ChipEight.Journal
import ChipEight.Keypad
import ChipEight.Machine.Font
import ChipEight.Memory
import ChipEight.Random.Source
import ChipEight.Registers
import ChipEight.Screen
import ChipEight.Timers

/-!
# The machine at rest

The state of the machine, the states it starts from, and what its host does to
it between cycles.
-/

namespace ChipEight

/-! ## Settings -/

/-- What a cycle does about a word that is no known instruction. -/
inductive UnknownPolicy
  | ignore
  | fail
deriving DecidableEq, Repr

/-- The choices made before the machine is switched on.  Without a seed the host
brings the key of the random source. -/
structure Settings where
  unknown : UnknownPolicy := .ignore
  seed : Option UInt64 := none
deriving DecidableEq, Repr

def Settings.source (settings : Settings) (entropy : ChaCha.Key) :
    RandomSource :=
  match settings.seed with
  | some seed => .ofSeed seed
  | none => .ofKey entropy

/-! ## The state -/

structure Machine where
  settings : Settings
  memory : Memory
  registers : Registers
  index : Address
  pc : Address
  lastWord : Word
  screen : Screen
  timers : Timers
  stack : CallStack
  keypad : Keypad
  redraw : Bool
  random : RandomSource

/-- What an operation answers. -/
inductive Reply
  | done
  | redraw (due : Bool)
  | refused (fault : Fault)
deriving DecidableEq, Repr

/-- The machine after an operation, its answer and what it told. -/
structure Outcome where
  machine : Machine
  reply : Reply := .done
  messages : List Message := []

namespace Machine

/-- The address at which programs are loaded and begin. -/
def programStart : Address := 0x200

/-- The size of the largest program that fits. -/
def programLimit : Nat := Memory.size - programStart.toNat

/-! ## Starting -/

/-- The machine as it is switched on: everything at rest, the font in memory. -/
def powerOn (settings : Settings) (entropy : ChaCha.Key) : Machine where
  settings := settings
  memory := Memory.zero.store 0 Font.bytes
  registers := .zero
  index := 0
  pc := programStart
  lastWord := 0
  screen := .dark
  timers := .stopped
  stack := .empty
  keypad := .released
  redraw := false
  random := settings.source entropy

/-- Start again with the program in memory.  The font is put back, the screen
is due to be drawn, and settings and random source go on. -/
def reset (m : Machine) : Machine :=
  { m with
    memory := m.memory.store 0 Font.bytes
    registers := .zero
    index := 0
    pc := programStart
    lastWord := 0
    screen := .dark
    timers := .stopped
    stack := .empty
    keypad := .released
    redraw := true }

def clear (m : Machine) : Machine :=
  { m with memory := .zero }.reset

/-- Put a program into memory.  One that does not fit changes nothing. -/
def load (m : Machine) (program : List Byte) : Outcome :=
  if program.length ≤ programLimit then
    { machine := { m with memory := m.memory.store programStart program }
      messages := [.loaded program.length] }
  else
    { machine := m
      reply := .refused (.programTooLarge program.length programLimit) }

/-! ## Between cycles -/

def tick (m : Machine) : Machine :=
  { m with timers := m.timers.tick }

/-- Press or release a key.  Only the low half of its number counts. -/
def setKey (m : Machine) (key : Byte) (pressed : Bool) : Machine :=
  { m with keypad := m.keypad.set key.low pressed }

def clearKeys (m : Machine) : Machine :=
  { m with keypad := .released }

/-- Answer whether the screen is due to be drawn, and take it as drawn. -/
def takeRedraw (m : Machine) : Bool × Machine :=
  (m.redraw, { m with redraw := false })

def sounding (m : Machine) : Bool := m.timers.sounding

end Machine

end ChipEight

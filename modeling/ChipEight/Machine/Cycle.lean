import ChipEight.Instruction
import ChipEight.Machine.Basic
import ChipEight.Screen.Sprite

/-!
# The machine at work

A cycle fetches the word at the program counter, moves the counter past it and
does what the word asks for.  Only the call stack can refuse an instruction; then,
and for an unknown word, the cycle has done nothing but the fetch.
-/

namespace ChipEight.Machine

/-! ## Carrying out an instruction -/

def v (m : Machine) (r : Nibble) : Byte := m.registers.get r

def setRegister (m : Machine) (r : Nibble) (b : Byte) : Machine :=
  { m with registers := m.registers.set r b }

/-- Pass over the next instruction if a condition holds. -/
def skipIf (m : Machine) (condition : Bool) : Machine :=
  if condition then { m with pc := m.pc + 2 } else m

/-- Combine two registers into the first.  The flag is written after the result,
so it is what the flag register holds in the end. -/
def combine (m : Machine) (operation : Arithmetic) (x y : Nibble) : Machine :=
  let a := m.v x
  let b := m.v y
  let combined := m.setRegister x (operation.result a b)
  match operation.flag? a b with
  | some flag => combined.setRegister Registers.flag (Arithmetic.flagByte flag)
  | none => combined

/-- Draw the sprite that the index points at.  The flag tells a collision. -/
def draw (m : Machine) (x y height : Nibble) : Machine :=
  let rows := m.memory.window m.index height.toNat
  let drawn := m.screen.drawSprite (m.v x).toNat (m.v y).toNat rows
  { m with
    screen := drawn.2
    registers := m.registers.set Registers.flag (Arithmetic.flagByte drawn.1)
    redraw := true }

/-- The hundreds, tens and units of a byte. -/
def decimalDigits (b : Byte) : List Byte :=
  [b / 100, b / 10 % 10, b % 10]

/-- Carry out an instruction on a machine whose counter is already past it. -/
def execute (m : Machine) : Instruction → Except StackFault Machine
  | .clearScreen => .ok { m with screen := .dark, redraw := true }
  | .ret =>
    match m.stack.pop? with
    | some (pc, stack) => .ok { m with pc := pc, stack := stack }
    | none => .error .underflow
  | .jump target => .ok { m with pc := target }
  | .call target =>
    match m.stack.push? m.pc with
    | some stack => .ok { m with pc := target, stack := stack }
    | none => .error .overflow
  | .skipEqual x value => .ok (m.skipIf (m.v x == value))
  | .skipUnequal x value => .ok (m.skipIf (m.v x != value))
  | .skipSame x y => .ok (m.skipIf (m.v x == m.v y))
  | .assign x value => .ok (m.setRegister x value)
  | .increase x value => .ok (m.setRegister x (m.v x + value))
  | .combine operation x y => .ok (m.combine operation x y)
  | .skipDifferent x y => .ok (m.skipIf (m.v x != m.v y))
  | .setIndex target => .ok { m with index := target }
  | .jumpFrom base => .ok { m with pc := base + (m.v 0).toAddress }
  | .random x mask =>
    let drawn := m.random.next
    .ok ({ m with random := drawn.2 }.setRegister x (drawn.1 &&& mask))
  | .draw x y height => .ok (m.draw x y height)
  | .skipPressed x => .ok (m.skipIf (m.keypad.isPressed (m.v x).low))
  | .skipReleased x => .ok (m.skipIf (!m.keypad.isPressed (m.v x).low))
  | .readDelay x => .ok (m.setRegister x m.timers.delay)
  | .awaitKey x =>
    match m.keypad.firstPressed with
    | some key => .ok (m.setRegister x (key.setWidth 8))
    | none => .ok { m with pc := m.pc - 2 }
  | .setDelay x =>
    .ok { m with timers := { m.timers with delay := m.v x } }
  | .setSound x =>
    .ok { m with timers := { m.timers with sound := m.v x } }
  | .advanceIndex x =>
    .ok { m with index := m.index + (m.v x).toAddress }
  | .pointGlyph x => .ok { m with index := Font.glyphAddress (m.v x) }
  | .storeDecimal x =>
    .ok { m with memory := m.memory.store m.index (decimalDigits (m.v x)) }
  | .saveRegisters last =>
    .ok { m with memory := m.memory.store m.index (m.registers.upTo last) }
  | .loadRegisters last =>
    let bytes := m.memory.window m.index (last.toNat + 1)
    .ok { m with registers := m.registers.fill bytes }

/-! ## One cycle -/

/-- The word at the program counter. -/
def nextWord (m : Machine) : Word := m.memory.wordAt m.pc

/-- The machine with a word fetched and the counter moved past it. -/
def fetch (m : Machine) : Machine :=
  { m with lastWord := m.nextWord, pc := m.pc + 2 }

/-- What becomes of an unknown word found at an address. -/
def meetUnknown (m : Machine) (word : Word) (pc : Address) : Outcome :=
  match m.settings.unknown with
  | .ignore => { machine := m, messages := [.ignored word pc] }
  | .fail =>
    { machine := m, reply := .refused (.unknownWord word pc.toWord) }

/-- Fetch a word and do what it asks for, telling only what is out of the
ordinary. -/
def advance (m : Machine) : Outcome :=
  match Instruction.decode m.nextWord with
  | none => m.fetch.meetUnknown m.nextWord m.pc
  | some instruction =>
    match m.fetch.execute instruction with
    | .ok next => { machine := next }
    | .error fault =>
      { machine := m.fetch
        reply := .refused (fault.at m.pc)
        messages := [.refused fault m.pc] }

/-- What a machine tells about itself after each cycle. -/
def portrait (m : Machine) : List Message :=
  [.registers m.registers, .frames m.stack.toList,
    .counters m.index m.pc m.timers.delay m.timers.sound]

/-- One cycle: the fetch is told first, then what the instruction tells, then the
state it leaves. -/
def cycle (m : Machine) : Outcome :=
  let outcome := m.advance
  { outcome with
    messages := .fetched m.pc m.nextWord ::
      (outcome.messages ++ outcome.machine.portrait) }

end ChipEight.Machine

import ChipEight.Machine.Operation

/-!
# The machine on wide numbers

The same machine on numbers that are wider than what they stand for: addresses
and the stack's depth are sixteen-bit words, the stack is a row of slots of
which some are in use, and every place in a row is told by an unbounded number.
Nothing in the types keeps these numbers in range.  What keeps them there is
the masks, and a place outside its row, a run that does not fit or a sum that
does not fit its width ends in a breach.  What needs no check, such as
arithmetic that wraps around, is shared with the machine.
-/

namespace ChipEight

/-- How a computation can leave the bounds it was meant to keep. -/
inductive Breach
  | index
  | slice
  | overflow
  | underflow
deriving DecidableEq, Repr

/-! ## Checked access and arithmetic -/

namespace Checked

variable {α : Type} {n : Nat}

def element (items : Vector α n) (place : Nat) : Except Breach α :=
  if inside : place < n then .ok items[place] else .error .index

def replace (items : Vector α n) (place : Nat) (item : α) :
    Except Breach (Vector α n) :=
  if inside : place < n then .ok (items.set place item inside)
  else .error .index

def before (items : Vector α n) (place : Nat) : Except Breach (List α) :=
  if place ≤ n then .ok (items.toList.take place) else .error .slice

/-- A row with a run of new items from a place upwards. -/
def overlay (items : Vector α n) (start : Nat) (new : List α) :
    Except Breach (Vector α n) :=
  if start + new.length ≤ n then
    .ok (Vector.ofFn fun k =>
      if start ≤ k.val then new.getD (k.val - start) items[k] else items[k])
  else .error .slice

/-- A sum or product that must fit its width. -/
def fits (width number : Nat) : Except Breach (BitVec width) :=
  if number < Nat.pow 2 width then .ok (BitVec.ofNat width number)
  else .error .overflow

/-- A difference that must not be negative. -/
def minus {width : Nat} (a b : BitVec width) : Except Breach (BitVec width) :=
  if b ≤ a then .ok (a - b) else .error .underflow

/-- A byte shifted by less than its width. -/
def shiftRight (b : Byte) (amount : Nat) : Except Breach Byte :=
  if amount < 8 then .ok (b >>> amount) else .error .overflow

end Checked

/-! ## The state -/

/-- The state of the machine on wide numbers.  The first `depth` slots are in
use. -/
structure WideMachine where
  settings : Settings
  memory : Vector Byte 4096
  registers : Vector Byte 16
  index : Word
  pc : Word
  lastWord : Word
  pixels : Vector Bool 2048
  timers : Timers
  slots : Vector Word 16
  depth : Word
  keys : Vector Bool 16
  redraw : Bool
  random : RandomSource

namespace WideMachine

open Checked

/-- What becomes of the machine under an operation, with the answer. -/
abbrev Attempt := Except Breach (WideMachine × Reply)

/-- An address with everything but its last twelve bits taken off. -/
def mask (a : Word) : Word := a &&& 0x0FFF

/-! ## Parts of the state -/

def readByte (s : WideMachine) (a : Word) : Except Breach Byte :=
  element s.memory (mask a).toNat

def writeByte (s : WideMachine) (a : Word) (b : Byte) :
    Except Breach WideMachine := do
  let memory ← replace s.memory (mask a).toNat b
  return { s with memory := memory }

def register (s : WideMachine) (r : Nat) : Except Breach Byte :=
  element s.registers r

def setRegister (s : WideMachine) (r : Nat) (b : Byte) :
    Except Breach WideMachine := do
  let registers ← replace s.registers r b
  return { s with registers := registers }

/-- The return addresses pushed so far, the oldest first. -/
def frames (s : WideMachine) : Except Breach (List Word) :=
  before s.slots s.depth.toNat

def firstPressed (s : WideMachine) : Option Byte :=
  (s.keys.toList.findIdx? id).map (BitVec.ofNat 8)

/-- The address of the instruction that the counter is already past. -/
def instructionAddress (s : WideMachine) : Word := mask (s.pc - 2)

def skipIf (s : WideMachine) (condition : Bool) : WideMachine :=
  if condition then { s with pc := mask (s.pc + 2) } else s

def meetUnknown (s : WideMachine) (w : Word) : WideMachine × Reply :=
  match s.settings.unknown with
  | .ignore => (s, .done)
  | .fail => (s, .refused (.unknownWord w s.instructionAddress))

/-! ## Fields of a word -/

def family (w : Word) : Nat := ((w &&& 0xF000) >>> 12).toNat

def x (w : Word) : Nat := ((w &&& 0x0F00) >>> 8).toNat

def y (w : Word) : Nat := ((w &&& 0x00F0) >>> 4).toNat

def lowNibble (w : Word) : Nat := (w &&& 0x000F).toNat

def lowByte (w : Word) : Byte := (w &&& 0x00FF).setWidth 8

def target (w : Word) : Word := w &&& 0x0FFF

/-! ## Drawing -/

def flipPixel (pixels : Vector Bool 2048) (column line : BitVec 64) :
    Except Breach (Bool × Vector Bool 2048) := do
  let start ← fits 64 (64 * (line.toNat % 32))
  let place ← fits 64 (start.toNat + column.toNat % 64)
  let lit ← element pixels place.toNat
  let flipped ← replace pixels place.toNat (!lit)
  return (lit, flipped)

/-- Flip the pixel under one bit of a row of a sprite, if the bit is set. -/
def drawBit (left top row : Nat) (bits : Byte)
    (drawn : Bool × Vector Bool 2048) (p : Nat) :
    Except Breach (Bool × Vector Bool 2048) := do
  let selected ← shiftRight 0x80 p
  if bits &&& selected = 0 then return drawn
  let column ← fits 64 (left + p)
  let line ← fits 64 (top + row)
  let flipped ← flipPixel drawn.2 column line
  return (drawn.1 || flipped.1, flipped.2)

def drawRow (s : WideMachine) (left top : Nat)
    (drawn : Bool × Vector Bool 2048) (row : Nat) :
    Except Breach (Bool × Vector Bool 2048) := do
  let bits ← s.readByte (s.index + BitVec.ofNat 16 row)
  (List.range 8).foldlM (drawBit left top row bits) drawn

/-! ## Carrying out a word of each family -/

def system (s : WideMachine) (w : Word) : Attempt :=
  match (lowByte w).toNat with
  | 0xE0 =>
    .ok ({ s with pixels := Vector.replicate 2048 false, redraw := true },
      .done)
  | 0xEE =>
    if s.depth = 0 then
      .ok (s, .refused (.stackUnderflow s.instructionAddress))
    else do
      let depth ← minus s.depth 1
      let pc ← element s.slots depth.toNat
      return ({ s with depth := depth, pc := pc }, .done)
  | _ => .ok (s.meetUnknown w)

def jump (s : WideMachine) (w : Word) : Attempt :=
  .ok ({ s with pc := target w }, .done)

def call (s : WideMachine) (w : Word) : Attempt :=
  if 16 ≤ s.depth.toNat then
    .ok (s, .refused (.stackOverflow s.instructionAddress))
  else do
    let slots ← replace s.slots s.depth.toNat s.pc
    let depth ← fits 16 (s.depth.toNat + 1)
    return ({ s with slots := slots, depth := depth, pc := target w }, .done)

/-- Pass over an instruction if a register and a byte compare in some way. -/
def skipByte (compare : Byte → Byte → Bool) (s : WideMachine) (w : Word) :
    Attempt := do
  let a ← s.register (x w)
  return (s.skipIf (compare a (lowByte w)), .done)

def skipRegister (compare : Byte → Byte → Bool) (s : WideMachine)
    (w : Word) : Attempt :=
  if lowNibble w ≠ 0 then .ok (s.meetUnknown w)
  else do
    let a ← s.register (x w)
    let b ← s.register (y w)
    return (s.skipIf (compare a b), .done)

def assign (s : WideMachine) (w : Word) : Attempt := do
  let next ← s.setRegister (x w) (lowByte w)
  return (next, .done)

def increase (s : WideMachine) (w : Word) : Attempt := do
  let a ← s.register (x w)
  let next ← s.setRegister (x w) (a + lowByte w)
  return (next, .done)

/-- Put two contents, combined, into a register, and write the flag after the
result. -/
def putCombined (s : WideMachine) (operation : Arithmetic)
    (a b : Byte) (w : Word) : Attempt := do
  let combined ← s.setRegister (x w) (operation.result a b)
  match operation.flag? a b with
  | none => return (combined, .done)
  | some flag =>
    let flagged ← combined.setRegister 0xF (Arithmetic.flagByte flag)
    return (flagged, .done)

def combine (s : WideMachine) (w : Word) : Attempt := do
  let a ← s.register (x w)
  let b ← s.register (y w)
  match Instruction.decodeArithmetic (BitVec.ofNat 4 (lowNibble w)) with
  | none => return s.meetUnknown w
  | some operation => s.putCombined operation a b w

def setIndex (s : WideMachine) (w : Word) : Attempt :=
  .ok ({ s with index := target w }, .done)

def jumpFrom (s : WideMachine) (w : Word) : Attempt := do
  let distance ← s.register 0
  let pc ← fits 16 ((target w).toNat + distance.toNat)
  return ({ s with pc := mask pc }, .done)

def randomByte (s : WideMachine) (w : Word) : Attempt := do
  let drawn := s.random.next
  let next ← { s with random := drawn.2 }.setRegister (x w)
    (drawn.1 &&& lowByte w)
  return (next, .done)

def draw (s : WideMachine) (w : Word) : Attempt := do
  let left ← s.register (x w)
  let top ← s.register (y w)
  let drawn ← (List.range (lowNibble w)).foldlM
    (s.drawRow left.toNat top.toNat) (false, s.pixels)
  let flagged ← s.setRegister 0xF (Arithmetic.flagByte drawn.1)
  return ({ flagged with pixels := drawn.2, redraw := true }, .done)

/-- Words of the keypad family.  The key is looked up before the word is told
from an unknown one. -/
def keypad (s : WideMachine) (w : Word) : Attempt := do
  let key ← s.register (x w)
  let pressed ← element s.keys (key &&& 0x0F).toNat
  match (lowByte w).toNat with
  | 0x9E => return (s.skipIf pressed, .done)
  | 0xA1 => return (s.skipIf !pressed, .done)
  | _ => return s.meetUnknown w

def saveRegister (s : WideMachine) (k : Nat) : Except Breach WideMachine := do
  let b ← s.register k
  s.writeByte (s.index + BitVec.ofNat 16 k) b

def saveRegisters (s : WideMachine) (count : Nat) :
    Except Breach WideMachine :=
  (List.range count).foldlM saveRegister s

def loadRegister (s : WideMachine) (k : Nat) : Except Breach WideMachine := do
  let b ← s.readByte (s.index + BitVec.ofNat 16 k)
  s.setRegister k b

def loadRegisters (s : WideMachine) (count : Nat) :
    Except Breach WideMachine :=
  (List.range count).foldlM loadRegister s

def storeDecimal (s : WideMachine) (b : Byte) :
    Except Breach WideMachine := do
  let hundreds ← s.writeByte s.index (b / 100)
  let tens ← hundreds.writeByte (s.index + 1) (b / 10 % 10)
  tens.writeByte (s.index + 2) (b % 10)

/-- Put the lowest key held down into a register.  Without one the counter goes
back to the word. -/
def awaitKey (s : WideMachine) (w : Word) : Attempt :=
  match s.firstPressed with
  | some key => do
    let next ← s.setRegister (x w) key
    return (next, .done)
  | none => .ok ({ s with pc := mask (s.pc - 2) }, .done)

def transfer (s : WideMachine) (w : Word) : Attempt :=
  match (lowByte w).toNat with
  | 0x07 => do
    let next ← s.setRegister (x w) s.timers.delay
    return (next, .done)
  | 0x0A => s.awaitKey w
  | 0x15 => do
    let delay ← s.register (x w)
    return ({ s with timers := { s.timers with delay := delay } }, .done)
  | 0x18 => do
    let sound ← s.register (x w)
    return ({ s with timers := { s.timers with sound := sound } }, .done)
  | 0x1E => do
    let distance ← s.register (x w)
    return ({ s with index := mask (s.index + distance.setWidth 16) }, .done)
  | 0x29 => do
    let digit ← s.register (x w)
    let index ← fits 16 (digit.toNat * Font.glyphHeight)
    return ({ s with index := index }, .done)
  | 0x33 => do
    let b ← s.register (x w)
    let next ← s.storeDecimal b
    return (next, .done)
  | 0x55 => do
    let next ← s.saveRegisters (x w + 1)
    return (next, .done)
  | 0x65 => do
    let next ← s.loadRegisters (x w + 1)
    return (next, .done)
  | _ => .ok (s.meetUnknown w)

def perform (s : WideMachine) (w : Word) : Attempt :=
  match family w with
  | 0x0 => s.system w
  | 0x1 => s.jump w
  | 0x2 => s.call w
  | 0x3 => s.skipByte (· == ·) w
  | 0x4 => s.skipByte (· != ·) w
  | 0x5 => s.skipRegister (· == ·) w
  | 0x6 => s.assign w
  | 0x7 => s.increase w
  | 0x8 => s.combine w
  | 0x9 => s.skipRegister (· != ·) w
  | 0xA => s.setIndex w
  | 0xB => s.jumpFrom w
  | 0xC => s.randomByte w
  | 0xD => s.draw w
  | 0xE => s.keypad w
  | 0xF => s.transfer w
  | _ => .error .index

/-! ## Operations -/

/-- Do what a word asks for as if it had been fetched.  The frames are looked
at afterwards, for the account of the state that every cycle gives. -/
def obey (s : WideMachine) (w : Word) : Attempt := do
  let fetched := { s with lastWord := w, pc := mask (s.pc + 2) }
  let done ← fetched.perform w
  let _ ← done.1.frames
  return done

def cycle (s : WideMachine) : Attempt := do
  let high ← s.readByte s.pc
  let low ← s.readByte (s.pc + 1)
  s.obey (high.setWidth 16 <<< 8 ||| low.setWidth 16)

def load (s : WideMachine) (program : List Byte) : Attempt :=
  if 3584 < program.length then
    .ok (s, .refused (.programTooLarge program.length 3584))
  else do
    let _ ← fits 64 (0x200 + program.length)
    let memory ← overlay s.memory 0x200 program
    return ({ s with memory := memory }, .done)

def reset (s : WideMachine) : Except Breach WideMachine := do
  let memory ← overlay s.memory 0 Font.bytes
  return { s with
    memory := memory
    registers := Vector.replicate 16 0
    index := 0
    pc := 0x200
    lastWord := 0
    pixels := Vector.replicate 2048 false
    timers := {}
    slots := Vector.replicate 16 0
    depth := 0
    keys := Vector.replicate 16 false
    redraw := true }

def clear (s : WideMachine) : Except Breach WideMachine :=
  { s with memory := Vector.replicate 4096 0 }.reset

def countDown (b : Byte) : Except Breach Byte :=
  if 0 < b then minus b 1 else .ok b

def tick (s : WideMachine) : Except Breach WideMachine := do
  let delay ← countDown s.timers.delay
  let sound ← countDown s.timers.sound
  return { s with timers := { delay := delay, sound := sound } }

def setKey (s : WideMachine) (key : Byte) (pressed : Bool) :
    Except Breach WideMachine := do
  let keys ← replace s.keys (key &&& 0x0F).toNat pressed
  return { s with keys := keys }

def apply (s : WideMachine) : Operation → Attempt
  | .load program => s.load program
  | .cycle => s.cycle
  | .tick => return (← s.tick, .done)
  | .reset => return (← s.reset, .done)
  | .clear => return (← s.clear, .done)
  | .setKey key pressed => return (← s.setKey key pressed, .done)
  | .clearKeys => .ok ({ s with keys := Vector.replicate 16 false }, .done)
  | .takeRedraw => .ok ({ s with redraw := false }, .redraw s.redraw)

/-- Do several operations in turn, going on after a refusal, and collect the
answers. -/
def run (s : WideMachine) :
    List Operation → Except Breach (WideMachine × List Reply)
  | [] => .ok (s, [])
  | operation :: rest => do
    let next ← s.apply operation
    let later ← next.1.run rest
    return (later.1, next.2 :: later.2)

def powerOn (settings : Settings) (entropy : ChaCha.Key) :
    Except Breach WideMachine := do
  let started ← reset {
    settings := settings
    memory := Vector.replicate 4096 0
    registers := Vector.replicate 16 0
    index := 0
    pc := 0x200
    lastWord := 0
    pixels := Vector.replicate 2048 false
    timers := {}
    slots := Vector.replicate 16 0
    depth := 0
    keys := Vector.replicate 16 false
    redraw := false
    random := settings.source entropy }
  return { started with redraw := false }

/-! ## Bounds -/

/-- All numbers that stand for addresses or depths are in range. -/
structure InRange (s : WideMachine) : Prop where
  depth : s.depth.toNat ≤ 16
  pc : s.pc.toNat < 4096
  index : s.index.toNat < 4096
  frames : ∀ k : Fin 16, k.val < s.depth.toNat → s.slots[k].toNat < 4096

end WideMachine

end ChipEight

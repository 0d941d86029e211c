import ChipEight.Fault
import ChipEight.Registers
import ChipEight.Text.Plain

/-!
# The journal

What the machine and its player have to tell while they run.  A message is data;
its level and its text are functions of it.  A journal keeps the messages up to a
threshold of detail.
-/

namespace ChipEight

/-! ## Levels -/

/-- How much detail a message adds, from the gravest to the most detailed. -/
inductive Level
  | error
  | warn
  | info
  | debug
  | trace
deriving DecidableEq, Repr

namespace Level

/-- The place of a level in the order of detail. -/
def rank : Level → Nat
  | error => 1
  | warn => 2
  | info => 3
  | debug => 4
  | trace => 5

/-- The name shown before a message. -/
def name : Level → String
  | error => "ERROR"
  | warn => "WARN"
  | info => "INFO"
  | debug => "DEBUG"
  | trace => "TRACE"

/-- All levels, the gravest first. -/
def all : List Level := [error, warn, info, debug, trace]

end Level

/-- The most detailed level that is kept, if any is. -/
abbrev Threshold := Option Level

/-- The threshold with a name, in any case: that of a level, or `off`. -/
def Threshold.ofName? (name : String) : Option Threshold :=
  if name.toUpper = "OFF" then some none
  else (Level.all.find? fun level => level.name == name.toUpper).map some

/-- Whether messages of a level are kept under a threshold. -/
def Threshold.admits (threshold : Threshold) (level : Level) : Bool :=
  match threshold with
  | none => false
  | some most => decide (level.rank ≤ most.rank)

/-! ## Messages -/

/-- One thing told. -/
inductive Message
  | loaded (size : Nat)
  | fetched (pc : Address) (word : Word)
  | ignored (word : Word) (pc : Address)
  | refused (fault : StackFault) (pc : Address)
  | registers (contents : Registers)
  | frames (addresses : List Address)
  | counters (index pc : Address) (delay sound : Byte)
  | running (program : String)
  | paused
  | resumed
  | restarted
  | stopped (fault : Fault)
deriving DecidableEq, Repr

namespace Message

/-- The level of a message. -/
def level : Message → Level
  | loaded _ => .info
  | fetched _ _ => .trace
  | ignored _ _ => .debug
  | refused _ _ => .warn
  | registers _ => .trace
  | frames _ => .trace
  | counters _ _ _ _ => .trace
  | running _ => .info
  | paused => .info
  | resumed => .info
  | restarted => .info
  | stopped _ => .error

/-- An address as three digits. -/
def addressChars (a : Address) : List Char := Numeral.hex 3 a.toNat

/-- A byte as two digits. -/
def byteChars (b : Byte) : List Char := Numeral.hex 2 b.toNat

/-- A word as four digits. -/
def wordChars (w : Word) : List Char := Numeral.hex 4 w.toNat

/-- Items in brackets, with a comma and a blank between them. -/
def bracketed (items : List (List Char)) : List Char :=
  '[' :: (List.intercalate ", ".toList items ++ "]".toList)

/-- The text of a message, as characters; the name of a program comes from outside
and is shown in its plain form. -/
def chars : Message → List Char
  | loaded size =>
    "loaded ".toList ++ Numeral.decimal size ++
      " byte program at 0x200".toList
  | fetched pc word => addressChars pc ++ ": ".toList ++ wordChars word
  | ignored word pc =>
    "ignoring unrecognized opcode ".toList ++ wordChars word ++
      " at ".toList ++ addressChars pc
  | refused .overflow pc =>
    "call stack overflow at ".toList ++ addressChars pc
  | refused .underflow pc =>
    "return with empty call stack at ".toList ++ addressChars pc
  | registers contents =>
    "V: ".toList ++ bracketed (contents.toList.map byteChars)
  | frames addresses =>
    "stack: ".toList ++ bracketed (addresses.map addressChars)
  | counters index pc delay sound =>
    "I: ".toList ++ addressChars index ++ " PC: ".toList ++
      addressChars pc ++ " DT: ".toList ++ byteChars delay ++
      " ST: ".toList ++ byteChars sound
  | running program =>
    "running ".toList ++ PlainText.plain (PlainText.indent program.toList)
  | paused => "paused".toList
  | resumed => "resumed".toList
  | restarted => "reset".toList
  | stopped fault => fault.chars ++ ", pausing".toList

/-- The text of a message. -/
def text (message : Message) : String := String.ofList message.chars

/-- A message as one line: the name of its level and its text. -/
def line (message : Message) : String :=
  message.level.name ++ " " ++ message.text

end Message

/-! ## Keeping messages -/

/-- The messages that a threshold keeps, in order. -/
def Threshold.keep (threshold : Threshold) (messages : List Message) :
    List Message :=
  messages.filter fun message => threshold.admits message.level

/-- The messages kept so far under a fixed threshold. -/
structure Journal where
  threshold : Threshold
  kept : Array Message := #[]
deriving DecidableEq, Repr

namespace Journal

/-- Add messages, of which those under the threshold stay. -/
def record (journal : Journal) (messages : List Message) : Journal :=
  { journal with kept := journal.kept ++ journal.threshold.keep messages }

/-- The messages kept, the oldest first. -/
def toList (journal : Journal) : List Message := journal.kept.toList

@[simp] theorem threshold_record (journal : Journal)
    (messages : List Message) :
    (journal.record messages).threshold = journal.threshold := rfl

@[simp] theorem toList_record (journal : Journal)
    (messages : List Message) :
    (journal.record messages).toList =
      journal.toList ++ journal.threshold.keep messages := by
  simp [record, toList]

theorem record_nil (journal : Journal) : journal.record [] = journal := by
  simp [record, Threshold.keep]

theorem record_record
    (journal : Journal) (first second : List Message) :
    (journal.record first).record second = journal.record (first ++ second) := by
  simp [record, Threshold.keep, List.filter_append, ← Array.toList_inj]

end Journal

end ChipEight

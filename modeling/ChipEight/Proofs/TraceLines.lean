import ChipEight.Proofs.Audit
import ChipEight.Proofs.Text.Templates

/-!
# The trace read back

At the level of most detail a cycle tells in four lines what it fetched and in which
state it left the machine.  Each line is read by itself: two of them are templates
with places for numbers, the registers and the return addresses are lists in
brackets.
-/

namespace ChipEight

/-- What the lines of a cycle at the level of most detail tell. -/
structure TraceRecord where
  pc : Address
  word : Word
  registers : Registers
  frames : List Address
  index : Address
  next : Address
  delay : Byte
  sound : Byte
deriving DecidableEq, Repr

/-- The registers with given contents, if there is one for each. -/
def Registers.ofList? (bytes : List Byte) : Option Registers :=
  if enough : bytes.length = 16 then some ⟨⟨bytes.toArray, enough⟩⟩ else none

theorem Registers.ofList?_toList (registers : Registers) :
    Registers.ofList? registers.toList = some registers := by
  have enough : registers.toList.length = 16 := registers.cells.length_toList
  rw [ofList?, dif_pos enough]
  rfl

namespace TraceRecord

open Numeral

/-! ## Writing -/

def messages (record : TraceRecord) : List Message :=
  [.fetched record.pc record.word, .registers record.registers,
    .frames record.frames,
    .counters record.index record.next record.delay record.sound]

def lines (record : TraceRecord) : List String :=
  record.messages.map Message.line

/-- The numbers of the first line. -/
def fetchedNumbers (record : TraceRecord) : List Nat :=
  [record.pc.toNat, record.word.toNat]

def byteNumbers (record : TraceRecord) : List Nat :=
  record.registers.toList.map BitVec.toNat

def frameNumbers (record : TraceRecord) : List Nat :=
  record.frames.map BitVec.toNat

/-- The numbers of the last line. -/
def counterNumbers (record : TraceRecord) : List Nat :=
  [record.index.toNat, record.next.toNat, record.delay.toNat,
    record.sound.toNat]

/-! ## Reading -/

/-- What comes before the text of every line. -/
def mark : List Char := "TRACE".toList ++ " ".toList

def fetchedTemplate : Template :=
  [.fixed mark, .place 16 3, .fixed ": ".toList, .place 16 4]

def countersTemplate : Template :=
  [.fixed mark, .fixed "I: ".toList, .place 16 3, .fixed " PC: ".toList,
    .place 16 3, .fixed " DT: ".toList, .place 16 2, .fixed " ST: ".toList,
    .place 16 2]

/-- Read the numbers that are listed behind a name. -/
def readList? (name cs : List Char) : Option (List Nat) :=
  (cs.dropPrefix? (mark ++ name)).bind readBracketed?

/-- The record that tells the numbers of four lines. -/
def ofNumbers? : List Nat → List Nat → List Nat → List Nat → Option TraceRecord
  | [pc, word], bytes, frames, [index, next, delay, sound] => do
    let contents ← bytes.mapM (bits? 8)
    return {
      pc := ← bits? 12 pc
      word := ← bits? 16 word
      registers := ← Registers.ofList? contents
      frames := ← frames.mapM (bits? 12)
      index := ← bits? 12 index
      next := ← bits? 12 next
      delay := ← bits? 8 delay
      sound := ← bits? 8 sound }
  | _, _, _, _ => none

/-- Read the lines of a cycle. -/
def read? : List String → Option TraceRecord
  | [fetched, registers, frames, counters] => do
    let fetched ← fetchedTemplate.read? fetched.toList
    let bytes ← readList? "V: ".toList registers.toList
    let frames ← readList? "stack: ".toList frames.toList
    let counters ← countersTemplate.read? counters.toList
    ofNumbers? fetched bytes frames counters
  | _ => none

theorem mapM_bits?_toNat {width : Nat} (items : List (BitVec width)) :
    (items.map BitVec.toNat).mapM (bits? width) = some items := by
  induction items with
  | nil =>
      rfl
  | cons first others inductionHypothesis =>
      rw [List.map_cons, List.mapM_cons, bits?_toNat, inductionHypothesis]
      rfl

theorem ofNumbers?_numbers (record : TraceRecord) :
    ofNumbers? record.fetchedNumbers record.byteNumbers record.frameNumbers
      record.counterNumbers = some record := by
  simp only [fetchedNumbers, byteNumbers, frameNumbers, counterNumbers,
    ofNumbers?, mapM_bits?_toNat, bits?_toNat, Registers.ofList?_toList,
    Option.bind_eq_bind, Option.bind_some, Option.pure_def]

/-! ## The four lines -/

theorem toList_line {message : Message} (isTrace : message.level = .trace) :
    message.line.toList = mark ++ message.chars := by
  have name : message.level.name = "TRACE" := by
    rw [isTrace]
    rfl
  rw [Message.line, Message.text, name, String.toList_append,
    String.toList_append, String.toList_ofList (l := message.chars)]
  rfl

/-- A line that lists numerals behind a name is read back. -/
theorem readList?_line
    {message : Message} {name : List Char} {width digits : Nat}
    {items : List (BitVec width)} (isTrace : message.level = .trace)
    (told : message.chars =
      name ++
        Message.bracketed (items.map fun item => hex digits item.toNat)) :
    readList? name message.line.toList = some (items.map BitVec.toNat) := by
  have listed :
      (items.map fun item => hex digits item.toNat) =
        (items.map BitVec.toNat).map (hex digits) := by
    rw [List.map_map]
    rfl
  rw [readList?, toList_line isTrace, told, listed, ← List.append_assoc,
    List.dropPrefix?_append_of_beq _ (beq_self_eq_true _), Option.bind_some,
    readBracketed?_bracketed]

theorem read?_fetched (record : TraceRecord) :
    fetchedTemplate.read?
        (Message.fetched record.pc record.word).line.toList =
      some record.fetchedNumbers := by
  have told :
      (Message.fetched record.pc record.word).chars =
        hex 3 record.pc.toNat ++ ": ".toList ++ hex 4 record.word.toNat := rfl
  have filled :
      mark ++ (Message.fetched record.pc record.word).chars =
        fetchedTemplate.fill record.fetchedNumbers := by
    rw [told]
    simp only [hex_eq_written, fetchedTemplate, fetchedNumbers, Template.fill,
      List.headD_cons, List.tail_cons, List.append_assoc, List.append_nil]
  rw [toList_line rfl, filled]
  exact Template.read?_fill rfl rfl

theorem readList?_registers (registers : Registers) :
    readList? "V: ".toList (Message.registers registers).line.toList =
      some (registers.toList.map BitVec.toNat) :=
  readList?_line rfl rfl

theorem readList?_frames (frames : List Address) :
    readList? "stack: ".toList (Message.frames frames).line.toList =
      some (frames.map BitVec.toNat) :=
  readList?_line rfl rfl

theorem read?_counters (record : TraceRecord) :
    countersTemplate.read?
        (Message.counters record.index record.next record.delay
          record.sound).line.toList =
      some record.counterNumbers := by
  have told :
      (Message.counters record.index record.next record.delay
          record.sound).chars =
        "I: ".toList ++ hex 3 record.index.toNat ++ " PC: ".toList ++
          hex 3 record.next.toNat ++ " DT: ".toList ++
            hex 2 record.delay.toNat ++ " ST: ".toList ++
              hex 2 record.sound.toNat := rfl
  have filled :
      mark ++ (Message.counters record.index record.next record.delay
          record.sound).chars =
        countersTemplate.fill record.counterNumbers := by
    rw [told]
    simp only [hex_eq_written, countersTemplate, counterNumbers, Template.fill,
      List.headD_cons, List.tail_cons, List.append_assoc, List.append_nil]
  rw [toList_line rfl, filled]
  exact Template.read?_fill rfl rfl

/-- The lines of a record tell all of it, whatever the number of frames. -/
theorem read?_lines (record : TraceRecord) :
    read? record.lines = some record := by
  simp only [lines, messages, List.map_cons, List.map_nil, read?,
    read?_fetched, readList?_registers, readList?_frames, read?_counters]
  exact record.ofNumbers?_numbers

end TraceRecord

namespace Machine

/-! ## The law of the trace -/

/-- The lines of a cycle at the level of most detail. -/
def traceLines (m : Machine) : List String :=
  (m.cycle.messages.filter fun message => message.level = .trace).map
    Message.line

/-- What a cycle fetches and the state in which it leaves the machine, as far as it is
told. -/
def traced (m : Machine) : TraceRecord where
  pc := m.pc
  word := m.nextWord
  registers := m.cycle.machine.registers
  frames := m.cycle.machine.stack.toList
  index := m.cycle.machine.index
  next := m.cycle.machine.pc
  delay := m.cycle.machine.timers.delay
  sound := m.cycle.machine.timers.sound

theorem traceLines_eq (m : Machine) : m.traceLines = m.traced.lines := by
  have quiet :
      m.advance.messages.filter (fun message => message.level = .trace) =
        [] := by
    rcases m.messages_advance_cases with
      ⟨_, _, told, _⟩ | ⟨_, told, _⟩ | ⟨_, told, _⟩ <;>
      rw [told] <;> rfl
  have told :
      m.cycle.messages.filter (fun message => message.level = .trace) =
        m.traced.messages := by
    have inParts :
        m.cycle.messages =
          [.fetched m.pc m.nextWord] ++
            (m.advance.messages ++ m.advance.machine.portrait) := rfl
    rw [inParts, List.filter_append, List.filter_append, quiet]
    rfl
  rw [traceLines, told, TraceRecord.lines]

/-- The lines of a cycle at the level of most detail are read back: they tell the
address and the word that were fetched and, after the cycle, the registers, the
return addresses in their order, however many there are, the index, the counter
and both timers.  So cycles have the same lines exactly if they agree in all of
these. -/
theorem trace_tells_cycle :
    (∀ m : Machine, TraceRecord.read? m.traceLines = some m.traced) ∧
      ∀ m other : Machine,
        m.traceLines = other.traceLines ↔ m.traced = other.traced := by
  have readBack : ∀ m : Machine,
      TraceRecord.read? m.traceLines = some m.traced := by
    intro m
    rw [m.traceLines_eq, TraceRecord.read?_lines]
  refine ⟨readBack, ?_⟩
  intro m other
  constructor
  · intro sameLines
    have read := readBack m
    rw [sameLines, readBack other] at read
    exact (Option.some.inj read).symm
  · intro sameRecord
    rw [m.traceLines_eq, other.traceLines_eq, sameRecord]

end Machine

end ChipEight

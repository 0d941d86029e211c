import ChipEight.Proofs.Cycle
import ChipEight.Proofs.History

/-!
# A machine that writes its own journal

A recorder tells each message at the moment at which it arises and asks its
threshold whether to keep it; the state after a cycle it puts into words only if
such detail is kept at all.  It comes to the same as letting the machine run and
going through its messages afterwards.  So the threshold has no influence on what
the machine does, and a coarser journal is a finer one with the more detailed
messages taken out.
-/

namespace ChipEight

/-! ## Thresholds -/

namespace Threshold

/-- How much detail a threshold lets through. -/
def detail (threshold : Threshold) : Nat :=
  match threshold with
  | none => 0
  | some most => most.rank

theorem admits_eq (threshold : Threshold) (level : Level) :
    threshold.admits level = decide (level.rank ≤ threshold.detail) := by
  cases threshold with
  | none =>
      cases level <;> rfl
  | some most =>
      rfl

/-- A coarser threshold keeps the same of what a finer one has kept as of all. -/
theorem keep_keep
    {coarse fine : Threshold} (coarser : coarse.detail ≤ fine.detail)
    (messages : List Message) :
    coarse.keep (fine.keep messages) = coarse.keep messages := by
  rw [keep, keep, keep, List.filter_filter]
  apply List.filter_congr
  intro message _
  rw [admits_eq, admits_eq, ← Bool.decide_and]
  apply decide_eq_decide.mpr
  omega

end Threshold

/-! ## The recorder -/

structure Recorder where
  machine : Machine
  journal : Journal

namespace Recorder

def powerOn (settings : Settings) (entropy : ChaCha.Key)
    (threshold : Threshold) : Recorder where
  machine := Machine.powerOn settings entropy
  journal := { threshold := threshold }

/-- Tell a message, which is kept only under the threshold. -/
def tell (r : Recorder) (message : Message) : Recorder :=
  if r.journal.threshold.admits message.level then
    { r with journal :=
      { r.journal with kept := r.journal.kept.push message } }
  else r

/-- Tell the state in three messages, unless no detail of this kind is kept. -/
def tellState (r : Recorder) : Recorder :=
  if r.journal.threshold.admits .trace then
    let m := r.machine
    ((r.tell (.registers m.registers)).tell (.frames m.stack.toList)).tell
      (.counters m.index m.pc m.timers.delay m.timers.sound)
  else r

/-- Do what a word asks for whose address the counter is already past. -/
def obey (r : Recorder) (word : Word) : Recorder × Reply :=
  let address := r.machine.pc - 2
  match Instruction.decode word with
  | none =>
    match r.machine.settings.unknown with
    | .ignore => (r.tell (.ignored word address), .done)
    | .fail => (r, .refused (.unknownWord word address.toWord))
  | some instruction =>
    match r.machine.execute instruction with
    | .ok next => ({ r with machine := next }, .done)
    | .error fault =>
      (r.tell (.refused fault address), .refused (fault.at address))

def cycle (r : Recorder) : Recorder × Reply :=
  let word := r.machine.nextWord
  let fetched := { r with machine := r.machine.fetch }
  let obeyed := (fetched.tell (.fetched r.machine.pc word)).obey word
  (obeyed.1.tellState, obeyed.2)

def load (r : Recorder) (program : List Byte) : Recorder × Reply :=
  let memory := r.machine.memory.store Machine.programStart program
  if Machine.programLimit < program.length then
    (r, .refused (.programTooLarge program.length Machine.programLimit))
  else
    ({ r with machine := { r.machine with memory := memory } }.tell
      (.loaded program.length), .done)

def apply (r : Recorder) (operation : Operation) : Recorder × Reply :=
  match operation with
  | .load program => r.load program
  | .cycle => r.cycle
  | .tick => ({ r with machine := r.machine.tick }, .done)
  | .reset => ({ r with machine := r.machine.reset }, .done)
  | .clear => ({ r with machine := r.machine.clear }, .done)
  | .setKey key pressed =>
    ({ r with machine := r.machine.setKey key pressed }, .done)
  | .clearKeys => ({ r with machine := r.machine.clearKeys }, .done)
  | .takeRedraw =>
    ({ r with machine := r.machine.takeRedraw.2 },
      .redraw r.machine.takeRedraw.1)

/-- Do several operations in turn, with all answers in order. -/
def run (r : Recorder) : List Operation → Recorder × List Reply
  | [] => (r, [])
  | operation :: rest =>
    let applied := r.apply operation
    let later := applied.1.run rest
    (later.1, applied.2 :: later.2)

/-! ## The machine and its messages -/

/-- A recorder that takes up an outcome with all of its messages. -/
def accept (r : Recorder) (outcome : Outcome) : Recorder where
  machine := outcome.machine
  journal := r.journal.record outcome.messages

theorem tell_eq (r : Recorder) (message : Message) :
    r.tell message = { r with journal := r.journal.record [message] } := by
  by_cases admitted : r.journal.threshold.admits message.level = true
  · simp [tell, Journal.record, Threshold.keep, admitted]
  · simp [tell, Journal.record, Threshold.keep, admitted]

/-- Messages that no threshold of a journal lets through leave it alone. -/
theorem record_of_notAdmitted
    {journal : Journal} {messages : List Message}
    (admittedNot : ∀ message ∈ messages,
      journal.threshold.admits message.level = false) :
    journal.record messages = journal := by
  have keptNone : journal.threshold.keep messages = [] := by
    simpa [Threshold.keep] using admittedNot
  simp [Journal.record, keptNone]

theorem tellState_eq (r : Recorder) :
    r.tellState =
      { r with journal := r.journal.record r.machine.portrait } := by
  by_cases admitted : r.journal.threshold.admits .trace = true
  · simp only [tellState, if_pos admitted, tell_eq, Journal.record_record]
    rfl
  · have ofTrace : ∀ message ∈ r.machine.portrait,
        r.journal.threshold.admits message.level = false := by
      simpa [Machine.portrait, Message.level] using admitted
    rw [tellState, if_neg admitted, record_of_notAdmitted ofTrace]

theorem obey_fetched (r : Recorder) :
    { r with machine := r.machine.fetch }.obey r.machine.nextWord =
      (r.accept r.machine.advance, r.machine.advance.reply) := by
  have address : r.machine.fetch.pc - 2 = r.machine.pc :=
    BitVec.add_sub_cancel r.machine.pc 2
  simp only [obey, address]
  cases decoded : Instruction.decode r.machine.nextWord with
  | none =>
      rw [Machine.advance_of_unknown decoded, Machine.meetUnknown]
      cases policy : r.machine.fetch.settings.unknown with
      | ignore =>
          rw [tell_eq]
          rfl
      | fail =>
          simp only [accept, Journal.record_nil]
  | some instruction =>
      cases executed : r.machine.fetch.execute instruction with
      | ok next =>
          rw [Machine.advance_of_executed decoded executed]
          simp only [executed, accept, Journal.record_nil]
      | error fault =>
          rw [Machine.advance_of_refused decoded executed]
          simp only [executed, tell_eq, accept]

theorem cycle_eq (r : Recorder) :
    r.cycle = (r.accept r.machine.cycle, r.machine.cycle.reply) := by
  have obeyed :=
    (r.tell (.fetched r.machine.pc r.machine.nextWord)).obey_fetched
  simp only [tell_eq] at obeyed
  simp only [cycle, tell_eq]
  rw [obeyed]
  simp only [tellState_eq, accept, Journal.record_record]
  rfl

theorem load_eq (r : Recorder) (program : List Byte) :
    r.load program =
      (r.accept (r.machine.load program), (r.machine.load program).reply) := by
  by_cases tooLarge : Machine.programLimit < program.length
  · have refused : ¬program.length ≤ Machine.programLimit :=
      Nat.not_le.mpr tooLarge
    simp only [load, if_pos tooLarge, Machine.load, if_neg refused, accept,
      Journal.record_nil]
  · have fits : program.length ≤ Machine.programLimit := Nat.not_lt.mp tooLarge
    simp only [load, if_neg tooLarge, Machine.load, if_pos fits, accept,
      tell_eq]

theorem apply_eq (r : Recorder) (operation : Operation) :
    r.apply operation =
      (r.accept (r.machine.apply operation),
        (r.machine.apply operation).reply) := by
  cases operation with
  | load program =>
      exact r.load_eq program
  | cycle =>
      exact r.cycle_eq
  | _ =>
      simp only [apply, Machine.apply, accept, Journal.record_nil]

/-- A recorder does what the machine does, answers what it answers and keeps of
its messages those under the threshold. -/
theorem run_eq (r : Recorder) (history : List Operation) :
    r.run history =
      (⟨r.machine.after history,
        r.journal.record (r.machine.run history).messages⟩,
        (r.machine.run history).replies) := by
  induction history generalizing r with
  | nil =>
      simp only [run, Machine.run, Journal.record_nil, Machine.after_nil]
  | cons operation rest inductionHypothesis =>
      simp only [run, apply_eq, inductionHypothesis, accept,
        Journal.record_record]
      rfl

theorem toList_run_powerOn
    (settings : Settings) (entropy : ChaCha.Key) (threshold : Threshold)
    (history : List Operation) :
    ((powerOn settings entropy threshold).run history).1.journal.toList =
      threshold.keep
        ((Machine.powerOn settings entropy).run history).messages := by
  rw [run_eq, Journal.toList_record]
  rfl

end Recorder

end ChipEight

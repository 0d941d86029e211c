import ChipEight.Proofs.Policy
import ChipEight.Proofs.Recorder
import ChipEight.Proofs.Refusal

/-!
# The journal as an account of a run

Each operation adds to the journal what `Machine.entries` says, told from the
machine before and after it and from its answer.  So the warnings are the faults of
the call stack, the ignored words are the unknown words that were met, and the
programs told are those that were loaded, in the order in which they came.
-/

namespace ChipEight

/-- The texts of the messages at a level, in order. -/
def textsAt (level : Level) (messages : List Message) : List (List Char) :=
  (messages.filter fun message => message.level = level).map Message.chars

theorem textsAt_append
    (level : Level) (earlier later : List Message) :
    textsAt level (earlier ++ later) =
      textsAt level earlier ++ textsAt level later := by
  simp only [textsAt, List.filter_append, List.map_append]

theorem textsAt_of_level
    {level : Level} {message : Message} (ofLevel : message.level = level) :
    textsAt level [message] = [message.chars] := by
  simp [textsAt, ofLevel]

theorem textsAt_of_other
    {level : Level} {message : Message} (other : message.level ≠ level) :
    textsAt level [message] = [] := by
  simp [textsAt, other]

/-- The warning about a fault of the call stack, which names its address. -/
def Fault.warning? : Fault → Option (List Char)
  | .stackOverflow pc =>
    some ("call stack overflow at ".toList ++ Numeral.hex 3 pc.toNat)
  | .stackUnderflow pc =>
    some ("return with empty call stack at ".toList ++ Numeral.hex 3 pc.toNat)
  | .programTooLarge _ _ => none
  | .unknownWord _ _ => none

/-- The warning about what an operation was refused for. -/
def Reply.warning? : Reply → Option (List Char)
  | .refused fault => fault.warning?
  | .done => none
  | .redraw _ => none

theorem warning_at (fault : StackFault) (pc : Address) :
    (Reply.refused (fault.at pc)).warning? =
      some (Message.refused fault pc).chars := by
  have sameDigits :
      Numeral.hex 3 pc.toWord.toNat = Message.addressChars pc :=
    congrArg (Numeral.hex 3) pc.toNat_toWord
  cases fault with
  | overflow =>
      exact congrArg (fun digits =>
        some ("call stack overflow at ".toList ++ digits)) sameDigits
  | underflow =>
      exact congrArg (fun digits =>
        some ("return with empty call stack at ".toList ++ digits)) sameDigits

/-- The text about an unknown word at an address that was ignored. -/
def ignoredText (met : Word × Address) : List Char :=
  "ignoring unrecognized opcode ".toList ++ Numeral.hex 4 met.1.toNat ++
    " at ".toList ++ Numeral.hex 3 met.2.toNat

/-- The text about a program that was loaded. -/
def loadedText (size : Nat) : List Char :=
  "loaded ".toList ++ Numeral.decimal size ++
    " byte program at 0x200".toList

namespace Machine

/-! ## What an operation has to tell -/

/-- The unknown word that an operation meets, with its address. -/
def unknownMet (m : Machine) (operation : Operation) : List (Word × Address) :=
  if operation = .cycle ∧ ¬m.nextWord.IsKnown then [(m.nextWord, m.pc)] else []

/-- The size of the program that an operation loads. -/
def sizeLoaded (m : Machine) (operation : Operation) : List Nat :=
  match operation with
  | .load program =>
    if (m.load program).reply = .done then [program.length] else []
  | _ => []

/-- What a cycle tells besides the fetch and the state. -/
def remarks (m : Machine) : List Message :=
  match m.cycle.reply with
  | .refused (.stackOverflow _) => [.refused .overflow m.pc]
  | .refused (.stackUnderflow _) => [.refused .underflow m.pc]
  | _ =>
    if m.settings.unknown = .ignore ∧ ¬m.nextWord.IsKnown then
      [.ignored m.nextWord m.pc]
    else []

/-- What an operation adds to the journal. -/
def entries (m : Machine) (operation : Operation) : List Message :=
  match operation with
  | .cycle =>
    let next := m.cycle.machine
    .fetched m.pc m.nextWord ::
      (m.remarks ++
        [.registers next.registers, .frames next.stack.toList,
          .counters next.index next.pc next.timers.delay next.timers.sound])
  | .load program =>
    if (m.load program).reply = .done then [.loaded program.length] else []
  | _ => []

/-- A cycle tells of a fault of the call stack, of a word that it ignores, or of
nothing. -/
theorem messages_advance_cases (m : Machine) :
    (∃ fault : StackFault, m.advance.reply = .refused (fault.at m.pc) ∧
      m.advance.messages = [.refused fault m.pc] ∧ m.nextWord.IsKnown) ∨
    (m.advance.reply = .done ∧
      m.advance.messages = [.ignored m.nextWord m.pc] ∧
      m.settings.unknown = .ignore ∧ ¬m.nextWord.IsKnown) ∨
    (m.advance.reply.warning? = none ∧ m.advance.messages = [] ∧
      ¬(m.settings.unknown = .ignore ∧ ¬m.nextWord.IsKnown)) := by
  cases decoded : Instruction.decode m.nextWord with
  | none =>
      right
      have isUnknown := (Instruction.decode_eq_none_iff _).mp decoded
      have policyKept : m.fetch.settings = m.settings := rfl
      rw [advance_of_unknown decoded, meetUnknown, policyKept]
      cases policy : m.settings.unknown with
      | ignore =>
          exact Or.inl ⟨rfl, rfl, rfl, isUnknown⟩
      | fail =>
          exact Or.inr ⟨rfl, rfl, fun ignores => by cases ignores.1⟩
  | some instruction =>
      have isKnown : m.nextWord.IsKnown := by
        by_contra isUnknown
        rw [(Instruction.decode_eq_none_iff _).mpr isUnknown] at decoded
        cases decoded
      cases executed : m.fetch.execute instruction with
      | ok next =>
          rw [advance_of_executed decoded executed]
          exact Or.inr (Or.inr ⟨rfl, rfl, fun ignores => ignores.2 isKnown⟩)
      | error fault =>
          rw [advance_of_refused decoded executed]
          exact Or.inl ⟨fault, rfl, rfl, isKnown⟩

theorem remarks_of_no_warning
    {m : Machine} (noWarning : m.advance.reply.warning? = none) :
    m.remarks =
      if m.settings.unknown = .ignore ∧ ¬m.nextWord.IsKnown then
        [.ignored m.nextWord m.pc]
      else [] := by
  rw [remarks, reply_cycle]
  split
  · rename_i isOverflow
    rw [isOverflow] at noWarning
    cases noWarning
  · rename_i isUnderflow
    rw [isUnderflow] at noWarning
    cases noWarning
  · rfl

theorem messages_advance (m : Machine) : m.advance.messages = m.remarks := by
  rcases m.messages_advance_cases with
    ⟨fault, answer, told, _⟩ | ⟨answer, told, ignored⟩ |
      ⟨noWarning, told, ignoredNot⟩
  · rw [told, remarks, reply_cycle, answer]
    cases fault <;> rfl
  · have noWarning : m.advance.reply.warning? = none := by
      rw [answer]
      rfl
    rw [told, remarks_of_no_warning noWarning, if_pos ignored]
  · rw [told, remarks_of_no_warning noWarning, if_neg ignoredNot]

theorem messages_apply (m : Machine) (operation : Operation) :
    (m.apply operation).messages = m.entries operation := by
  cases operation with
  | cycle =>
      change m.cycle.messages = _
      rw [cycle, m.messages_advance]
      rfl
  | load program =>
      simp only [apply, entries, load]
      split <;> rfl
  | _ =>
      rfl

/-! ## The messages at each level -/

/-- The fetch and the state are told at the level of most detail. -/
theorem textsAt_cycle
    (m : Machine) {level : Level} (coarser : level ≠ .trace) :
    textsAt level m.cycle.messages = textsAt level m.advance.messages := by
  have told :
      m.cycle.messages =
        [.fetched m.pc m.nextWord] ++
          (m.advance.messages ++ m.advance.machine.portrait) := rfl
  have fetchLess : textsAt level [.fetched m.pc m.nextWord] = [] :=
    textsAt_of_other coarser.symm
  have stateLess : textsAt level m.advance.machine.portrait = [] := by
    simp [textsAt, portrait, Message.level, coarser.symm]
  rw [told, textsAt_append, textsAt_append, fetchLess, stateLess,
    List.nil_append, List.append_nil]

theorem textsAt_load_of_ne
    (m : Machine) (program : List Byte) {level : Level}
    (other : level ≠ .info) :
    textsAt level (m.load program).messages = [] := by
  unfold load
  split
  · exact textsAt_of_other other.symm
  · rfl

theorem textsAt_warn_apply (m : Machine) (operation : Operation) :
    textsAt .warn (m.apply operation).messages =
      [(m.apply operation).reply].filterMap Reply.warning? := by
  cases operation with
  | cycle =>
      change textsAt .warn m.cycle.messages =
        [m.advance.reply].filterMap Reply.warning?
      rw [m.textsAt_cycle (by decide)]
      rcases m.messages_advance_cases with
        ⟨fault, answer, told, _⟩ | ⟨answer, told, _⟩ | ⟨noWarning, told, _⟩
      · rw [told, answer, List.filterMap_cons_some (warning_at fault m.pc)]
        exact textsAt_of_level rfl
      · rw [told, answer]
        exact textsAt_of_other (by simp [Message.level])
      · rw [told, List.filterMap_cons_none noWarning]
        rfl
  | load program =>
      change textsAt .warn (m.load program).messages = _
      rw [m.textsAt_load_of_ne program (by decide)]
      simp only [apply, load]
      split <;> rfl
  | _ =>
      rfl

theorem textsAt_debug_apply (m : Machine) (operation : Operation) :
    textsAt .debug (m.apply operation).messages =
      if m.settings.unknown = .ignore then
        (m.unknownMet operation).map ignoredText
      else [] := by
  cases operation with
  | cycle =>
      change textsAt .debug m.cycle.messages = _
      rw [m.textsAt_cycle (by decide)]
      rcases m.messages_advance_cases with
        ⟨fault, _, told, isKnown⟩ | ⟨_, told, ignores, isUnknown⟩ |
          ⟨_, told, ignoredNot⟩
      · have noneMet : m.unknownMet .cycle = [] :=
          if_neg fun meets => meets.2 isKnown
        rw [told, noneMet, List.map_nil, ite_self]
        exact textsAt_of_other (by simp [Message.level])
      · have isMet : m.unknownMet .cycle = [(m.nextWord, m.pc)] :=
          if_pos ⟨rfl, isUnknown⟩
        rw [told, if_pos ignores, isMet]
        exact textsAt_of_level rfl
      · rw [told]
        by_cases ignores : m.settings.unknown = .ignore
        · have isKnown : m.nextWord.IsKnown := by
            by_contra isUnknown
            exact ignoredNot ⟨ignores, isUnknown⟩
          have noneMet : m.unknownMet .cycle = [] :=
            if_neg fun meets => meets.2 isKnown
          rw [noneMet, List.map_nil, ite_self]
          rfl
        · rw [if_neg ignores]
          rfl
  | load program =>
      change textsAt .debug (m.load program).messages = _
      rw [m.textsAt_load_of_ne program (by decide)]
      simp [unknownMet]
  | _ =>
      simp [apply, textsAt, unknownMet]

theorem textsAt_info_apply (m : Machine) (operation : Operation) :
    textsAt .info (m.apply operation).messages =
      (m.sizeLoaded operation).map loadedText := by
  cases operation with
  | cycle =>
      change textsAt .info m.cycle.messages = []
      rw [m.textsAt_cycle (by decide)]
      rcases m.messages_advance_cases with
        ⟨_, _, told, _⟩ | ⟨_, told, _⟩ | ⟨_, told, _⟩
      · rw [told]
        exact textsAt_of_other (by simp [Message.level])
      · rw [told]
        exact textsAt_of_other (by simp [Message.level])
      · rw [told]
        rfl
  | load program =>
      simp only [apply, sizeLoaded, load]
      split
      · exact textsAt_of_level rfl
      · rfl
  | _ =>
      rfl

/-! ## The messages of a history -/

theorem textsAt_run
    (level : Level) (m : Machine) (history : List Operation) :
    textsAt level (m.run history).messages =
      m.along (fun found operation =>
        textsAt level (found.apply operation).messages) history := by
  rw [messages_run]
  exact apply_along rfl (textsAt_append level) _ m history

theorem textsAt_warn_run (m : Machine) (history : List Operation) :
    textsAt .warn (m.run history).messages =
      (m.run history).replies.filterMap Reply.warning? := by
  have answered := apply_along (f := List.filterMap Reply.warning?) rfl
    (fun _ _ => List.filterMap_append)
    (fun found operation => [(found.apply operation).reply]) m history
  rw [textsAt_run, replies_run, answered]
  simp only [textsAt_warn_apply]

theorem textsAt_info_run (m : Machine) (history : List Operation) :
    textsAt .info (m.run history).messages =
      (m.along sizeLoaded history).map loadedText := by
  have told := apply_along (f := List.map loadedText) rfl
    (fun _ _ => List.map_append) sizeLoaded m history
  rw [textsAt_run, told]
  simp only [textsAt_info_apply]

theorem textsAt_debug_run (m : Machine) (history : List Operation) :
    textsAt .debug (m.run history).messages =
      if m.settings.unknown = .ignore then
        (m.along unknownMet history).map ignoredText
      else [] := by
  -- What is told of the unknown words under the policy at the start.
  let told (met : List (Word × Address)) : List (List Char) :=
    if m.settings.unknown = .ignore then met.map ignoredText else []
  have inParts : ∀ earlier later,
      told (earlier ++ later) = told earlier ++ told later := by
    intro earlier later
    simp only [told, List.map_append]
    split <;> rfl
  have toldAlong :=
    apply_along (f := told) (ite_self []) inParts unknownMet m history
  rw [textsAt_run]
  change _ = told (m.along unknownMet history)
  rw [toldAlong]
  apply along_congr
    (fun found => found.settings.unknown = m.settings.unknown) _ _ rfl
  · intro found operation samePolicy
    rw [policy_apply, samePolicy]
  · intro found operation samePolicy
    rw [textsAt_debug_apply, samePolicy]

/-! ## The law of the journal -/

/-- The journal of any history from switching on, kept in full, tells of each fault
of the call stack with the address in the answer, of each unknown word with its
address if such words are ignored, and of each program loaded with its size, once
and in order.  The next operation adds to it what it has to tell and nothing else.
A machine that writes its own journal does and answers the same under every
threshold, and its journal under a coarser one is what the coarser one keeps of the
finer journal. -/
theorem journal_accounts_for_run
    (settings : Settings) (entropy : ChaCha.Key) (history : List Operation) :
    let start := powerOn settings entropy
    let m := start.after history
    let full : Threshold := some .trace
    let journal := full.keep (start.run history).messages
    let recorded := fun threshold =>
      (Recorder.powerOn settings entropy threshold).run history
    textsAt .warn journal =
      (start.run history).replies.filterMap Reply.warning? ∧
    textsAt .debug journal =
      (if settings.unknown = .ignore then
        (start.along unknownMet history).map ignoredText
      else []) ∧
    textsAt .info journal =
      (start.along sizeLoaded history).map loadedText ∧
    (∀ operation,
      full.keep (start.run (history ++ [operation])).messages =
        journal ++ m.entries operation) ∧
    (∀ threshold,
      (recorded threshold).1.machine = m ∧
      (recorded threshold).2 = (start.run history).replies ∧
      (recorded threshold).1.journal.toList =
        threshold.keep (start.run history).messages) ∧
    ∀ coarse fine : Threshold, coarse.detail ≤ fine.detail →
      (recorded coarse).1.machine = (recorded fine).1.machine ∧
      (recorded coarse).2 = (recorded fine).2 ∧
      (recorded coarse).1.journal.toList =
        coarse.keep (recorded fine).1.journal.toList := by
  intro start m full journal recorded
  have keepsAll : ∀ messages, full.keep messages = messages := by
    intro messages
    apply List.filter_eq_self.mpr
    intro message _
    cases message.level <;> rfl
  have journalIs : journal = (start.run history).messages := keepsAll _
  have recordedIs : ∀ threshold,
      (recorded threshold).1.machine = m ∧
      (recorded threshold).2 = (start.run history).replies ∧
      (recorded threshold).1.journal.toList =
        threshold.keep (start.run history).messages := by
    intro threshold
    refine ⟨?_, ?_, Recorder.toList_run_powerOn settings entropy threshold
      history⟩
    · exact congrArg (fun ran => ran.1.machine) (Recorder.run_eq _ history)
    · exact congrArg Prod.snd (Recorder.run_eq _ history)
  refine ⟨?_, ?_, ?_, ?_, recordedIs, ?_⟩
  · rw [journalIs, textsAt_warn_run]
  · rw [journalIs, textsAt_debug_run]
    rfl
  · rw [journalIs, textsAt_info_run]
  · intro operation
    have oneMore :
        ((start.after history).run [operation]).messages =
          (m.apply operation).messages :=
      List.append_nil _
    rw [keepsAll, journalIs, messages_run_append, oneMore, messages_apply]
  · intro coarse fine coarser
    obtain ⟨coarseMachine, coarseReplies, coarseJournal⟩ := recordedIs coarse
    obtain ⟨fineMachine, fineReplies, fineJournal⟩ := recordedIs fine
    refine ⟨coarseMachine.trans fineMachine.symm,
      coarseReplies.trans fineReplies.symm, ?_⟩
    rw [coarseJournal, fineJournal, Threshold.keep_keep coarser]

end Machine

end ChipEight

import ChipEight.Proofs.Player.Frames

/-!
# When the player is paused and what it does then

The latest control key or refusal of the machine decides whether a frame is
paused.  A frame that is not paused runs its cycles up to the first refusal and
ticks once; one that is paused leaves the machine to the keys.  A refusal is told
once and stops the cycles until a key lets them go on, and an event that ends the
player ends it at once.
-/

namespace ChipEight

/-! ## Errors in the journal -/

/-- The errors that a journal has kept. -/
def Journal.errors (journal : Journal) : List Message :=
  journal.toList.filter fun message => message.level = .error

theorem Journal.errors_record (journal : Journal) (messages : List Message) :
    (journal.record messages).errors =
      journal.errors ++ journal.threshold.keep
        (messages.filter fun message => message.level = .error) := by
  simp only [errors, toList_record, List.filter_append, Threshold.keep,
    List.filter_filter, Bool.and_comm]

namespace Machine

/-- The machine tells no errors of its own; a fault is an answer. -/
theorem level_apply
    (m : Machine) (operation : Operation) :
    ∀ message ∈ (m.apply operation).messages, message.level ≠ .error := by
  cases operation with
  | load program =>
      simp only [apply, load]
      split <;> simp [Message.level]
  | cycle =>
      have advanced : ∀ message ∈ m.advance.messages, message.level ≠ .error := by
        cases decoded : Instruction.decode m.nextWord with
        | none =>
            rw [advance_of_unknown decoded, meetUnknown]
            split <;> simp [Message.level]
        | some instruction =>
            cases executed : m.fetch.execute instruction with
            | ok next =>
                simp [advance_of_executed decoded executed]
            | error fault =>
                simp [advance_of_refused decoded executed, Message.level]
      simpa [apply, cycle, portrait, Message.level, or_imp, forall_and]
        using advanced
  | _ =>
      intro message impossible
      cases impossible

theorem level_run
    (m : Machine) (history : List Operation) :
    ∀ message ∈ (m.run history).messages, message.level ≠ .error := by
  induction history generalizing m with
  | nil =>
      intro message impossible
      cases impossible
  | cons operation rest inductionHypothesis =>
      intro message told
      rcases List.mem_append.mp told with now | later
      · exact m.level_apply operation message now
      · exact inductionHypothesis _ message later

end Machine

namespace Player

theorem pausedAfter_eq_true_iff (marks : List Mark) :
    pausedAfter false marks = true ↔
      ∃ mark, marks.getLast? = some mark ∧ (mark = .pause ∨ mark = .fault) := by
  rw [pausedAfter]
  cases marks.getLast? with
  | none =>
      simp
  | some mark =>
      cases mark <;> simp [Mark.halts]

/-- Marks after which a paused player goes on end with a key that lets it. -/
theorem getLast?_of_pausedAfter
    {marks : List Mark} (goesOn : pausedAfter true marks = false) :
    marks.getLast? = some .resume ∨ marks.getLast? = some .restart := by
  rw [pausedAfter] at goesOn
  cases latest : marks.getLast? with
  | none =>
      rw [latest] at goesOn
      cases goesOn
  | some mark =>
      rw [latest] at goesOn
      cases mark <;> simp_all [Mark.halts]

theorem level_messagesOf (cues : List Cue) :
    ∀ message ∈ messagesOf cues, message.level ≠ .error := by
  intro message told
  obtain ⟨cue, _, isTold⟩ := List.mem_flatMap.mp told
  unfold Cue.messages at isTold
  split at isTold
  · split_ifs at isTold <;> simp_all [Message.level]
  · cases isTold

namespace Session

/-! ## The marks of frames -/

def marksThrough (stage : Stage) (s : Session) : List (List Cue) → List Mark
  | [] => []
  | cues :: rest =>
    s.frameMarks stage cues ++
      (s.frame stage cues).session.marksThrough stage rest

theorem paused_frame
    {stage : Stage} {s : Session} {cues : List Cue}
    (completed : (s.frame stage cues).ending = none) :
    (s.frame stage cues).session.paused =
      pausedAfter s.paused (s.frameMarks stage cues) := by
  rw [(frame_of_completed completed).2]

theorem paused_through
    {stage : Stage} {s : Session} {frames : List (List Cue)}
    (completes : s.Completes stage frames) :
    (s.through stage frames).paused =
      pausedAfter s.paused (s.marksThrough stage frames) := by
  induction frames generalizing s with
  | nil =>
      rfl
  | cons cues rest inductionHypothesis =>
      rw [through, inductionHypothesis completes.2, paused_frame completes.1,
        marksThrough, pausedAfter_append]

/-- A player that is paused is not paused after some more frames and the cues of
another only if the cues of one of them end with a key that lets it go on. -/
theorem resumed_of_not_paused
    {stage : Stage} {s : Session} {between : List (List Cue)} {cues : List Cue}
    (isPaused : s.paused = true) (completes : s.Completes stage between)
    (goesOn : ∀ cue ∈ cues, cue.ends = false)
    (works : ((s.through stage between).poll cues).session.paused = false) :
    ∃ batch ∈ between ++ [cues],
      (marksOf batch).getLast? = some .resume ∨
        (marksOf batch).getLast? = some .restart := by
  induction between generalizing s with
  | nil =>
      refine ⟨cues, List.mem_singleton_self cues, ?_⟩
      apply getLast?_of_pausedAfter
      rw [through, (s.poll_of_goesOn goesOn).2, isPaused] at works
      exact works
  | cons batch rest inductionHypothesis =>
      cases stillPaused : (s.frame stage batch).session.paused with
      | true =>
          obtain ⟨later, among, resumes⟩ :=
            inductionHypothesis stillPaused completes.2 works
          exact ⟨later, List.mem_cons_of_mem _ among, resumes⟩
      | false =>
          refine ⟨batch, List.mem_cons_self .., ?_⟩
          apply getLast?_of_pausedAfter
          rw [paused_frame completes.1, isPaused, frameMarks,
            pausedAfter_append] at stillPaused
          cases faulty : s.frameFault stage batch with
          | none =>
              rw [faulty] at stillPaused
              exact stillPaused
          | some fault =>
              rw [faulty] at stillPaused
              cases stillPaused

/-! ## The law of a frame -/

/-- What a completed frame does to the machine and to the journal, after the marks
of the frames before it. -/
structure Paces
    (stage : Stage) (before : Session) (marks : List Mark) (cues : List Cue) :
    Prop where
  paused_iff : (before.poll cues).session.paused = true ↔
    ∃ mark, (marks ++ marksOf cues).getLast? = some mark ∧
      (mark = .pause ∨ mark = .fault)
  rests : (before.poll cues).session.paused = true →
    before.frameFault stage cues = none ∧
      (before.frame stage cues).session.machine =
        before.machine.after (operationsOf cues ++ [.takeRedraw]) ∧
      (before.frame stage cues).session.journal =
        before.journal.record (messagesOf cues)
  works : (before.poll cues).session.paused = false →
    let answered := before.machine.after (operationsOf cues)
    ∃ n, answered.Turn stage.cyclesPerFrame n (before.frameFault stage cues) ∧
      (before.frame stage cues).session.machine =
        answered.after (List.replicate n .cycle ++ [.tick, .takeRedraw]) ∧
      (before.frame stage cues).session.journal =
        before.journal.record (messagesOf cues ++
          (answered.cycleMessages n ++
            (before.frameFault stage cues).toList.map .stopped))
  errors : (before.frame stage cues).session.journal.errors =
    before.journal.errors ++ before.journal.threshold.keep
      ((before.frameFault stage cues).toList.map .stopped)

theorem paces_of_completed
    {stage : Stage} {before : Session} {marks : List Mark} {cues : List Cue}
    (soFar : before.paused = pausedAfter false marks)
    (completed : (before.frame stage cues).ending = none) :
    before.Paces stage marks cues := by
  obtain ⟨goesOn, played⟩ := frame_of_completed completed
  have answered := (before.poll_of_goesOn goesOn).2
  have machine := congrArg Session.machine answered
  constructor
  · have paused := congrArg Session.paused answered
    rw [paused, soFar, ← pausedAfter_append, pausedAfter_eq_true_iff]
  · intro isPaused
    have noFault : before.frameFault stage cues = none := by
      rw [frameFault, turnFault, if_pos isPaused]
    have noTurn : (before.poll cues).session.turnOperations stage = [] := by
      rw [turnOperations, if_pos isPaused]
    refine ⟨noFault, ?_, ?_⟩
    · rw [played, frameOperations, noTurn, List.append_nil,
        Machine.after_append]
      rfl
    · rw [played, frameMessages, noTurn, noFault]
      simp [Machine.run]
  · intro noPause answered
    have notPaused : ¬(before.poll cues).session.paused = true :=
      Bool.eq_false_iff.mp noPause
    have fault :
        before.frameFault stage cues =
          (answered.turn stage.cyclesPerFrame).2 := by
      rw [frameFault, turnFault, if_neg notPaused, machine]
    have turn :
        (before.poll cues).session.turnOperations stage =
          List.replicate (answered.turn stage.cyclesPerFrame).1 .cycle ++
            [.tick] := by
      rw [turnOperations, if_neg notPaused, machine]
    refine ⟨(answered.turn stage.cyclesPerFrame).1, ?_, ?_, ?_⟩
    · rw [fault]
      exact answered.turn_eq stage.cyclesPerFrame
    · rw [played, frameOperations, turn, Machine.after_append,
        Machine.after_append, Machine.after_append]
      rfl
    · rw [played, frameMessages, turn, Machine.messages_run_append, machine]
      simp only [List.append_assoc]
      rfl
  · have fromCues := List.filter_eq_nil_iff.mpr fun message told =>
      (decide_eq_true_iff (p := message.level = .error)).not.mpr
        (level_messagesOf cues message told)
    have fromMachine := List.filter_eq_nil_iff.mpr fun message told =>
      (decide_eq_true_iff (p := message.level = .error)).not.mpr
        ((before.poll cues).session.machine.level_run
          ((before.poll cues).session.turnOperations stage) message told)
    rw [played, Journal.errors_record, frameMessages, List.filter_append,
      List.filter_append, fromCues, fromMachine]
    cases before.frameFault stage cues <;> rfl

/-! ## The law of the player -/

/-- As long as no event ends the player, every frame keeps the law of frames: the
latest control key or fault tells whether it is paused, and the machine has its
turn only if it is not.  After a fault it has no turn until the keys of a frame
end with one that lets it go on.  An event that ends the player ends it there, with
nothing done after the events before it. -/
theorem frames_keep_pace
    {host : Host} {choices : CommandLine.Choices} {program : List Byte}
    {s : Session} (accepted : prepare host choices program = .ok s)
    {earlier : List (List Cue)}
    (completes : s.Completes (stageOf host choices) earlier) :
    let stage := stageOf host choices
    let before := s.through stage earlier
    (∀ cues, (before.frame stage cues).ending = none →
      before.Paces stage (s.marksThrough stage earlier) cues ∧
      ∀ first faulty between, earlier = first ++ faulty :: between →
        (s.through stage first).frameFault stage faulty ≠ none →
        (before.poll cues).session.paused = false →
        ∃ batch ∈ between ++ [cues],
          (marksOf batch).getLast? = some .resume ∨
            (marksOf batch).getLast? = some .restart) ∧
    (∀ head last tail later, (∀ cue ∈ head, cue.ends = false) →
      last.ends = true →
      let finale := s.play stage (earlier ++ (head ++ .event last :: tail) :: later)
      finale.ending = .finished ∧
        finale.session = (before.poll head).session ∧
        finale.session.machine = before.machine.after (operationsOf head) ∧
        finale.session.journal = before.journal.record (messagesOf head) ∧
        finale.calls =
          s.callsThrough stage earlier ++ [(before.poll head).calls]) ∧
    ∀ later, s.play stage (earlier ++ later) =
      let rest := before.play stage later
      { rest with calls := s.callsThrough stage earlier ++ rest.calls } := by
  intro stage before
  have startsUnpaused : s.paused = false := by
    rw [session_of_prepare accepted]
    rfl
  have soFar : before.paused = pausedAfter false (s.marksThrough stage earlier) := by
    rw [← startsUnpaused]
    exact paused_through completes
  refine ⟨?_, ?_, fun later => play_of_completes completes later⟩
  · intro cues completed
    refine ⟨paces_of_completed soFar completed, ?_⟩
    rintro first faulty between cut isFaulty works
    rw [cut, completes_append_iff] at completes
    obtain ⟨_, faultyCompleted, betweenCompletes⟩ := completes
    have reached :
        before =
          ((s.through stage first).frame stage faulty).session.through stage
            between := by
      change s.through stage earlier = _
      rw [cut, through_append]
      rfl
    have stopped :
        ((s.through stage first).frame stage faulty).session.paused = true := by
      rw [paused_frame faultyCompleted, frameMarks, pausedAfter_append]
      cases fault : (s.through stage first).frameFault stage faulty with
      | none =>
          exact absurd fault isFaulty
      | some fault =>
          rfl
    rw [reached] at completed works
    exact resumed_of_not_paused stopped betweenCompletes
      (frame_of_completed completed).1 works
  · intro head last tail later goesOn ends finale
    have endsThere :
        before.play stage ((head ++ .event last :: tail) :: later) =
          { session := (before.poll head).session
            calls := [(before.poll head).calls]
            ending := .finished } := by
      rw [play, frame_of_ends stage before tail goesOn ends]
    have whole : finale = _ := play_of_completes completes _
    have answered := (before.poll_of_goesOn goesOn).2
    rw [endsThere] at whole
    rw [whole]
    exact ⟨rfl, rfl, congrArg Session.machine answered,
      congrArg Session.journal answered, rfl⟩

def threeCycles : CommandLine.Choices :=
  { program := "stray", cyclesPerFrame := 3 }

/-- A program that loads a register and then returns though nothing was
called. -/
def strayReturn : Session :=
  opening readyHost threeCycles
    ((Machine.powerOn {} readyHost.entropy).load [0x60, 0x01, 0x00, 0xEE])

/-- The second cycle of the first frame is refused, so the next frame is paused,
and closing the window then is the end. -/
theorem strayReturn_keeps_pace :
    let stage := stageOf readyHost threeCycles
    prepare readyHost threeCycles [0x60, 0x01, 0x00, 0xEE] = .ok strayReturn ∧
      strayReturn.Completes stage [[]] ∧
      strayReturn.frameFault stage [] = some (.stackUnderflow 0x202) ∧
      ((strayReturn.through stage [[]]).poll []).session.paused = true ∧
      (strayReturn.play stage [[], [.event .quit]]).ending = .finished := by
  intro stage
  have accepted :
      prepare readyHost threeCycles [0x60, 0x01, 0x00, 0xEE] =
        .ok strayReturn :=
    rfl
  have working : stage.devices.failing = none := rfl
  have completes : strayReturn.Completes stage [[]] :=
    completes_of_working working _ (by simp)
  have thenCompleted :
      ((strayReturn.through stage [[]]).frame stage []).ending = none :=
    completed_of_working working _ (by simp)
  obtain ⟨pace, finish, _⟩ := frames_keep_pace accepted completes
  refine ⟨accepted, completes, by decide +kernel, ?_, ?_⟩
  · exact (pace [] thenCompleted).1.paused_iff.mpr
      ⟨.fault, by decide +kernel, Or.inr rfl⟩
  · exact (finish [] .quit [] [] (by simp) rfl).1

end Session

end Player

end ChipEight

import ChipEight.Proofs.Player.Frames

/-!
# The beep and the title

The player remembers whether it has let the beep sound, and makes a request only
when the machine's sound starts or stops.  A grammar of the requests that can be
made from silence or from a sounding beep is kept by every frame, completed or
not.  After a completed frame what the player remembers, the sound card, the title
and the machine's sound agree.
-/

namespace ChipEight

theorem Machine.sounding_eq (m : Machine) :
    m.sounding = decide (0 < m.timers.sound) := by
  rw [Bool.eq_iff_iff, decide_eq_true_iff]
  exact bne_iff_ne.trans (BitVec.pos_iff_ne_zero _).symm

namespace Player

/-! ## Requests about the beep -/

/-- A request that starts or stops the beep or changes the title. -/
def Call.beeps : Call → Bool
  | resume | pause | title _ => true
  | start | video | audio | openAudio .. | window .. | renderer | events
  | color .. | clear | box .. | present | samples _ => false

namespace Session

/-- The requests for so many changes of the beep one after the other. -/
def beepChanges (wasBeeping : Bool) : Nat → List Call
  | 0 => []
  | count + 1 =>
    beepChange wasBeeping (!wasBeeping) ++ beepChanges (!wasBeeping) count

end Session

open Session

/-- Requests that lead from a beep that sounds or not to one that sounds or not:
the beep starts only from silence and stops only while it sounds, and each time
the title follows at once. -/
inductive Beeps : Bool → List Call → Bool → Prop
  | nil (beeping : Bool) : Beeps beeping [] beeping
  | other {call : Call} {calls : List Call} {before after : Bool}
      (elsewhere : call.beeps = false) (rest : Beeps before calls after) :
      Beeps before (call :: calls) after
  | starts {calls : List Call} {after : Bool}
      (rest : Beeps true calls after) :
      Beeps false (.resume :: .title Canvas.soundingTitle :: calls) after
  | stops {calls : List Call} {after : Bool}
      (rest : Beeps false calls after) :
      Beeps true (.pause :: .title Canvas.quietTitle :: calls) after

namespace Beeps

theorem append
    {first second : List Call} {before between after : Bool}
    (earlier : Beeps before first between)
    (later : Beeps between second after) :
    Beeps before (first ++ second) after := by
  induction earlier with
  | nil _ =>
      exact later
  | other elsewhere _ inductionHypothesis =>
      exact .other elsewhere (inductionHypothesis later)
  | starts _ inductionHypothesis =>
      exact .starts (inductionHypothesis later)
  | stops _ inductionHypothesis =>
      exact .stops (inductionHypothesis later)

theorem of_elsewhere
    (beeping : Bool) {calls : List Call}
    (elsewhere : ∀ call ∈ calls, call.beeps = false) :
    Beeps beeping calls beeping := by
  induction calls with
  | nil =>
      exact .nil beeping
  | cons call rest inductionHypothesis =>
      obtain ⟨first, others⟩ := List.forall_mem_cons.mp elsewhere
      exact .other first (inductionHypothesis others)

theorem of_beepChange (wasBeeping sounding : Bool) :
    Beeps wasBeeping (beepChange wasBeeping sounding) sounding := by
  cases wasBeeping <;> cases sounding
  · exact .nil false
  · exact .starts (.nil true)
  · exact .stops (.nil false)
  · exact .nil true

theorem exists_filter_eq
    {calls : List Call} {before after : Bool} (made : Beeps before calls after) :
    ∃ count, calls.filter Call.beeps = beepChanges before count := by
  induction made with
  | nil _ =>
      exact ⟨0, rfl⟩
  | other elsewhere _ inductionHypothesis =>
      obtain ⟨count, same⟩ := inductionHypothesis
      refine ⟨count, ?_⟩
      rw [List.filter_cons, elsewhere, if_neg Bool.false_ne_true, same]
  | starts _ inductionHypothesis =>
      obtain ⟨count, same⟩ := inductionHypothesis
      refine ⟨count + 1, ?_⟩
      rw [List.filter_cons_of_pos rfl, List.filter_cons_of_pos rfl, same]
      rfl
  | stops _ inductionHypothesis =>
      obtain ⟨count, same⟩ := inductionHypothesis
      refine ⟨count + 1, ?_⟩
      rw [List.filter_cons_of_pos rfl, List.filter_cons_of_pos rfl, same]
      rfl

/-- The title follows at once when the beep starts or stops. -/
theorem titled
    {calls : List Call} {before after : Bool} (made : Beeps before calls after)
    (i : Nat) :
    (calls[i]? = some .resume →
      calls[i + 1]? = some (.title Canvas.soundingTitle)) ∧
    (calls[i]? = some .pause →
      calls[i + 1]? = some (.title Canvas.quietTitle)) := by
  induction made generalizing i with
  | nil _ =>
      simp
  | other elsewhere _ inductionHypothesis =>
      cases i with
      | zero =>
          constructor
          · rintro ⟨⟩
            cases elsewhere
          · rintro ⟨⟩
            cases elsewhere
      | succ i =>
          exact inductionHypothesis i
  | starts _ inductionHypothesis | stops _ inductionHypothesis =>
      rcases i with _ | _ | i
      · simp
      · simp
      · exact inductionHypothesis i

end Beeps

/-! ## The sound card and the title bar -/

/-- What the requests about sound and title leave to be heard and seen. -/
structure Front where
  playing : Bool
  title : String
deriving DecidableEq, Repr

namespace Front

/-- Carry out a request.  A sound card that has been opened does not play until it
is told to. -/
def take (front : Front) : Call → Front
  | .openAudio .. => { front with playing := false }
  | .resume => { front with playing := true }
  | .pause => { front with playing := false }
  | .window title .. => { front with title := title }
  | .title title => { front with title := title }
  | .start | .video | .audio | .renderer | .events | .color .. | .clear
  | .box .. | .present | .samples _ => front

def takeAll (front : Front) (calls : List Call) : Front :=
  calls.foldl take front

theorem takeAll_append (front : Front) (first second : List Call) :
    front.takeAll (first ++ second) = (front.takeAll first).takeAll second :=
  List.foldl_append

/-- The sound card and the title bar with the beep sounding or not. -/
def ofBeeping (beeping : Bool) : Front where
  playing := beeping
  title := if beeping then Canvas.soundingTitle else Canvas.quietTitle

theorem takeAll_beepChange (wasBeeping sounding : Bool) :
    (ofBeeping wasBeeping).takeAll (beepChange wasBeeping sounding) =
      ofBeeping sounding := by
  cases wasBeeping <;> cases sounding <;> rfl

/-- The beep is heard and the title tells of it as long as a sound has not run
out. -/
structure Follows (front : Front) (sound : Byte) : Prop where
  playing_iff : front.playing = true ↔ 0 < sound
  title_eq : front.title =
    if 0 < sound then Canvas.soundingTitle else Canvas.quietTitle

theorem follows_ofBeeping (sound : Byte) :
    (ofBeeping (0 < sound)).Follows sound := by
  constructor
  · exact decide_eq_true_iff
  · simp only [ofBeeping, decide_eq_true_eq]

end Front

/-- A request to paint, or samples for the sound card. -/
def Call.isOutput : Call → Bool
  | color .. | clear | box .. | present | samples _ => true
  | start | video | audio | openAudio .. | window .. | renderer | events
  | resume | pause | title _ => false

theorem Call.beeps_of_isOutput {call : Call} (isOutput : call.isOutput = true) :
    call.beeps = false := by
  cases call with
  | color | clear | box | present | samples => rfl
  | _ => cases isOutput

theorem Front.takeAll_of_isOutput
    (front : Front) {calls : List Call}
    (areOutput : ∀ call ∈ calls, call.isOutput = true) :
    front.takeAll calls = front := by
  refine List.foldlRecOn (motive := (· = front)) calls take rfl ?_
  rintro _ rfl call among
  have isOutput := areOutput call among
  cases call with
  | color | clear | box | present | samples => rfl
  | _ => cases isOutput

theorem isOutput_of_mem_drawing
    {scale : Nat} {screen : Screen} {call : Call}
    (isDrawn : call ∈ Canvas.drawing scale screen) : call.isOutput = true := by
  simp only [Canvas.drawing, List.mem_cons, List.mem_append, List.mem_map,
    List.not_mem_nil, or_false] at isDrawn
  rcases isDrawn with rfl | rfl | ⟨p, _, rfl⟩ | rfl <;> rfl

theorem mem_of_mem_request
    {devices : Devices} {calls : List Call} {call : Call}
    (isMade : call ∈ (devices.request calls).1) : call ∈ calls := by
  induction calls with
  | nil =>
      cases isMade
  | cons first rest inductionHypothesis =>
      have among : call = first ∨ call ∈ (devices.request rest).1 := by
        simp only [Devices.request] at isMade
        split at isMade
        · split at isMade
          · exact Or.inl (List.mem_singleton.mp isMade)
          · exact List.mem_cons.mp isMade
        · exact List.mem_cons.mp isMade
      rcases among with rfl | later
      · exact List.mem_cons_self ..
      · exact List.mem_cons_of_mem _ (inductionHypothesis later)

namespace Session

/-! ## One frame -/

theorem isOutput_of_mem_poll
    {s : Session} {cues : List Cue} {call : Call}
    (isMade : call ∈ (s.poll cues).calls) : call.isOutput = true := by
  obtain ⟨runs, rfl⟩ := s.calls_poll cues isMade
  rfl

theorem isOutput_of_mem_draw
    {stage : Stage} {s : Session} {call : Call}
    (isMade : call ∈ (s.draw stage).calls) : call.isOutput = true := by
  simp only [draw] at isMade
  split at isMade
  · exact isOutput_of_mem_drawing (mem_of_mem_request isMade)
  · cases isMade

/-- A frame that ends the player makes no request about the beep. -/
theorem isOutput_of_ended
    {stage : Stage} {s : Session} {cues : List Cue}
    (ended : (s.frame stage cues).ending ≠ none) :
    ∀ call ∈ (s.frame stage cues).calls, call.isOutput = true := by
  intro call isMade
  rw [frame, Frame.andThen] at ended isMade
  cases polled : (s.poll cues).ending with
  | some ending =>
      rw [polled] at isMade
      exact isOutput_of_mem_poll isMade
  | none =>
      rw [polled] at ended isMade
      rcases List.mem_append.mp isMade with whilePolling | later
      · exact isOutput_of_mem_poll whilePolling
      · rw [Frame.andThen] at ended later
        cases drew : (((s.poll cues).session.takeTurn stage).draw stage).ending with
        | some ending =>
            rw [drew] at later
            exact isOutput_of_mem_draw later
        | none =>
            -- Seeing to the beep comes last and never ends the player.
            rw [drew, beep_eq] at ended
            exact absurd rfl ended

/-- A completed frame changes the beep, if at all, after all its other requests. -/
theorem calls_of_completed
    {stage : Stage} {s : Session} {cues : List Cue}
    (completed : (s.frame stage cues).ending = none) :
    let next := (s.frame stage cues).session
    next.beeping = next.machine.sounding ∧
      ∃ others, (∀ call ∈ others, call.isOutput = true) ∧
        (s.frame stage cues).calls =
          others ++ beepChange s.beeping next.beeping := by
  obtain ⟨_, played⟩ := frame_of_completed completed
  rw [played]
  refine ⟨rfl, (s.poll cues).calls ++
    drawingIfDue stage (s.machine.after (s.frameOperations stage cues)), ?_, ?_⟩
  · intro call among
    rcases List.mem_append.mp among with whilePolling | whileDrawing
    · exact isOutput_of_mem_poll whilePolling
    · unfold drawingIfDue at whileDrawing
      split at whileDrawing
      · exact isOutput_of_mem_drawing whileDrawing
      · cases whileDrawing
  · rw [List.append_assoc]

theorem beeps_of_completed
    {stage : Stage} {s : Session} {cues : List Cue}
    (completed : (s.frame stage cues).ending = none) :
    Beeps s.beeping (s.frame stage cues).calls
      (s.frame stage cues).session.beeping := by
  obtain ⟨_, others, areOutput, split⟩ := calls_of_completed completed
  rw [split]
  exact (Beeps.of_elsewhere _ fun call among =>
    Call.beeps_of_isOutput (areOutput call among)).append
      (Beeps.of_beepChange _ _)

theorem front_of_completed
    {stage : Stage} {s : Session} {cues : List Cue}
    (completed : (s.frame stage cues).ending = none) :
    (Front.ofBeeping s.beeping).takeAll (s.frame stage cues).calls =
      Front.ofBeeping (s.frame stage cues).session.beeping := by
  obtain ⟨_, others, areOutput, split⟩ := calls_of_completed completed
  rw [split, Front.takeAll_append, Front.takeAll_of_isOutput _ areOutput,
    Front.takeAll_beepChange]

/-! ## The whole run -/

theorem beeps_play
    (stage : Stage) (s : Session) (frames : List (List Cue)) :
    ∃ after, Beeps s.beeping (s.play stage frames).calls.flatten after := by
  induction frames generalizing s with
  | nil =>
      exact ⟨s.beeping, .nil s.beeping⟩
  | cons cues rest inductionHypothesis =>
      rw [play]
      cases ended : (s.frame stage cues).ending with
      | some ending =>
          have areOutput := isOutput_of_ended (ended ▸ Option.some_ne_none _)
          refine ⟨s.beeping, Beeps.of_elsewhere _ fun call among => ?_⟩
          exact Call.beeps_of_isOutput (areOutput call (by simpa using among))
      | none =>
          obtain ⟨after, later⟩ :=
            inductionHypothesis (s.frame stage cues).session
          exact ⟨after, (beeps_of_completed ended).append later⟩

theorem beeps_setup
    (stage : Stage) (s : Session) :
    ∀ call ∈ setup stage s, call.beeps = false := by
  intro call isMade
  simp only [setup, List.mem_append, List.mem_singleton] at isMade
  rcases isMade with (prepares | draws) | rfl
  · revert call
    simp [preparation, Call.beeps]
  · exact Call.beeps_of_isOutput (isOutput_of_mem_drawing draws)
  · rfl

theorem beeps_perform
    (stage : Stage) (s : Session) (frames : List (List Cue)) :
    ∃ after, Beeps s.beeping (perform stage s frames).calls.flatten after := by
  have quietSetup :
      Beeps s.beeping (stage.devices.request (setup stage s)).1 s.beeping :=
    Beeps.of_elsewhere _ fun call isMade =>
      beeps_setup stage s call (mem_of_mem_request isMade)
  rw [perform]
  split
  · rename_i made report requested
    rw [requested] at quietSetup
    exact ⟨s.beeping, by simpa using quietSetup⟩
  · rename_i made requested
    rw [requested] at quietSetup
    obtain ⟨after, played⟩ := beeps_play stage s frames
    exact ⟨after, quietSetup.append played⟩

theorem front_setup (stage : Stage) (s : Session) (front : Front) :
    front.takeAll (setup stage s) = Front.ofBeeping false := by
  rw [setup, Front.takeAll_append, Front.takeAll_append,
    Front.takeAll_of_isOutput _ fun _ => isOutput_of_mem_drawing]
  rfl

theorem front_through
    {stage : Stage} {s : Session} {frames : List (List Cue)}
    (completes : s.Completes stage frames) :
    (Front.ofBeeping s.beeping).takeAll (s.callsThrough stage frames).flatten =
      Front.ofBeeping (s.through stage frames).beeping := by
  induction frames generalizing s with
  | nil =>
      rfl
  | cons cues rest inductionHypothesis =>
      rw [callsThrough, List.flatten_cons, Front.takeAll_append,
        front_of_completed completes.1, inductionHypothesis completes.2]
      rfl

theorem beeping_through
    {stage : Stage} {s : Session} {frames : List (List Cue)}
    (inStep : s.beeping = s.machine.sounding)
    (completes : s.Completes stage frames) :
    (s.through stage frames).beeping =
      (s.through stage frames).machine.sounding :=
  through_induction (motive := fun s => s.beeping = s.machine.sounding)
    (fun _ _ _ completed => (calls_of_completed completed).1) inStep completes

/-! ## The law of the beep -/

theorem quiet_of_prepare
    {host : Host} {choices : CommandLine.Choices} {program : List Byte}
    {s : Session} (accepted : prepare host choices program = .ok s) :
    s.beeping = false ∧ s.machine.timers.sound = 0 := by
  rw [session_of_prepare accepted]
  refine ⟨rfl, ?_⟩
  change ((Machine.powerOn _ _).load program).machine.timers.sound = 0
  rw [Machine.load]
  split <;> rfl

theorem beeping_of_prepare
    {host : Host} {choices : CommandLine.Choices} {program : List Byte}
    {s : Session} (accepted : prepare host choices program = .ok s)
    {stage : Stage} {frames : List (List Cue)}
    (completes : s.Completes stage frames) :
    (s.through stage frames).beeping =
      decide (0 < (s.through stage frames).machine.timers.sound) := by
  obtain ⟨beepsNot, isSilent⟩ := quiet_of_prepare accepted
  have inStep : s.beeping = s.machine.sounding := by
    rw [Machine.sounding_eq, beepsNot, isSilent]
    rfl
  exact (beeping_through inStep completes).trans (Machine.sounding_eq _)

theorem front_of_prepare
    {host : Host} {choices : CommandLine.Choices} {program : List Byte}
    {s : Session} (accepted : prepare host choices program = .ok s)
    {stage : Stage} {frames : List (List Cue)}
    (completes : s.Completes stage frames) (front : Front) :
    front.takeAll (setup stage s :: s.callsThrough stage frames).flatten =
      Front.ofBeeping (s.through stage frames).beeping := by
  rw [List.flatten_cons, Front.takeAll_append, front_setup,
    ← (quiet_of_prepare accepted).1, front_through completes]

/-- The beep starts and stops in turns over the whole run, and the title is changed
each time and at no other time.  At the end of every completed frame the beep is
heard and the title tells of it exactly if the machine's sound has not run out.
Such a frame makes a change exactly if this differs from the end of the frame
before it, and a frame that ends the player makes none. -/
theorem beep_follows_sound
    {host : Host} {choices : CommandLine.Choices} {program : List Byte}
    {s : Session} (accepted : prepare host choices program = .ok s) :
    let stage := stageOf host choices
    (∀ frames,
      let calls := (perform stage s frames).calls.flatten
      (∃ count, calls.filter Call.beeps = beepChanges false count) ∧
      ∀ i,
        (calls[i]? = some .resume →
          calls[i + 1]? = some (.title Canvas.soundingTitle)) ∧
        (calls[i]? = some .pause →
          calls[i + 1]? = some (.title Canvas.quietTitle))) ∧
    s.machine.timers.sound = 0 ∧
    ∀ frames, s.Completes stage frames →
      let reached := s.through stage frames
      let calls := setup stage s :: s.callsThrough stage frames
      ((stage.devices.request (setup stage s)).2 = none → ∀ later, ∃ rest,
        (perform stage s (frames ++ later)).calls = calls ++ rest) ∧
      (∀ front : Front,
        (front.takeAll calls.flatten).Follows reached.machine.timers.sound) ∧
      ∀ cues,
        let next := reached.frame stage cues
        (next.ending = none → ∃ others,
          (∀ call ∈ others, call.beeps = false) ∧
          next.calls = others ++
            beepChange (0 < reached.machine.timers.sound)
              (0 < next.session.machine.timers.sound)) ∧
        (next.ending ≠ none → ∀ call ∈ next.calls, call.beeps = false) := by
  intro stage
  obtain ⟨beepsNot, isSilent⟩ := quiet_of_prepare accepted
  refine ⟨?_, isSilent, ?_⟩
  · intro frames calls
    obtain ⟨after, made⟩ := beeps_perform stage s frames
    rw [beepsNot] at made
    exact ⟨made.exists_filter_eq, made.titled⟩
  · intro frames completes reached calls
    have inStep := beeping_of_prepare accepted completes
    refine ⟨?_, ?_, ?_⟩
    · intro ready later
      exact ⟨_, perform_of_completes ready completes later⟩
    · intro front
      rw [front_of_prepare accepted completes, inStep]
      exact Front.follows_ofBeeping _
    · intro cues next
      constructor
      · intro completed
        obtain ⟨nextInStep, others, areOutput, calls⟩ :=
          calls_of_completed completed
        refine ⟨others, fun call among =>
          Call.beeps_of_isOutput (areOutput call among), ?_⟩
        rw [inStep, nextInStep, Machine.sounding_eq] at calls
        exact calls
      · intro ended call isMade
        exact Call.beeps_of_isOutput (isOutput_of_ended ended call isMade)

def soundChoices : CommandLine.Choices where
  program := "sound"
  cyclesPerFrame := 3

/-- A program that lets a sound be heard for two frames and goes round in circles
afterwards. -/
def shortSound : Session :=
  opening readyHost soundChoices
    ((Machine.powerOn {} readyHost.entropy).load
      [0x60, 0x02, 0xF0, 0x18, 0x12, 0x04])

theorem shortSound_beeps :
    let stage := stageOf readyHost soundChoices
    let calls := setup stage shortSound :: shortSound.callsThrough stage [[]]
    let front := (⟨false, ""⟩ : Front).takeAll calls.flatten
    front.playing = true ∧ front.title = "CHIP-8 [beep]" ∧
      Call.pause ∈ ((shortSound.through stage [[]]).frame stage []).calls := by
  have accepted :
      prepare readyHost soundChoices [0x60, 0x02, 0xF0, 0x18, 0x12, 0x04] =
        .ok shortSound :=
    rfl
  have working : (stageOf readyHost soundChoices).devices.failing = none := rfl
  have completes :
      shortSound.Completes (stageOf readyHost soundChoices) [[]] :=
    completes_of_working working _ (by simp)
  have thenCompleted :
      ((shortSound.through (stageOf readyHost soundChoices) [[]]).frame
        (stageOf readyHost soundChoices) []).ending = none :=
    completed_of_working working _ (by simp)
  have sounds :
      0 < (shortSound.through (stageOf readyHost soundChoices)
        [[]]).machine.timers.sound := by
    decide +kernel
  have runsOut :
      ((shortSound.through (stageOf readyHost soundChoices) [[]]).frame
        (stageOf readyHost soundChoices) []).session.machine.timers.sound = 0 := by
    decide +kernel
  obtain ⟨_, _, law⟩ := beep_follows_sound accepted
  obtain ⟨_, heard, change⟩ := law [[]] completes
  obtain ⟨others, _, made⟩ := (change []).1 thenCompleted
  rw [runsOut, decide_eq_true sounds] at made
  have follows := heard ⟨false, ""⟩
  have titled := follows.title_eq
  rw [if_pos sounds] at titled
  refine ⟨follows.playing_iff.mpr sounds, titled, ?_⟩
  rw [made]
  exact List.mem_append_right others (List.mem_cons_self ..)

end Session

end Player

end ChipEight

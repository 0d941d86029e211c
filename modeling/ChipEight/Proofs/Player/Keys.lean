import ChipEight.Proofs.HeldKeys
import ChipEight.Proofs.Player.Frames

/-!
# Keys from the host's keyboard

Exactly one of the host's keys stands for each key of the keypad.  The machine's
turn never changes the keypad, so a key is held down exactly if the latest event
about its host's key, or about the key that starts the program again, is the host's
key going down.
-/

namespace ChipEight.Player

/-! ## The layout -/

namespace HostKey

theorem lookup_eq_some_iff (c : Char) (k : Nibble) :
    layout.lookup c = some k ↔ (c, k) ∈ layout := by
  constructor
  · intro found
    obtain ⟨before, after, cut, _⟩ := List.lookup_eq_some_iff.mp found
    rw [cut]
    exact List.mem_append_right before (List.mem_cons_self ..)
  · intro inLayout
    have eachFound : ∀ p ∈ layout, layout.lookup p.1 = some p.2 := by decide
    exact eachFound (c, k) inLayout

/-- A host's key stands for a key of the keypad, and no other one does. -/
def AloneStandsFor (key : HostKey) (k : Nibble) : Prop :=
  ∀ candidate : HostKey, candidate.keypadKey? = some k ↔ candidate = key

theorem exists_aloneStandsFor (k : Nibble) :
    ∃ key : HostKey, key.AloneStandsFor k := by
  have isPlaced : ∀ k : Nibble, ∃ p ∈ layout, p.2 = k := by decide
  have isPlacedOnce : ∀ p ∈ layout, ∀ q ∈ layout, p.2 = q.2 → p = q := by
    decide
  obtain ⟨⟨c, _⟩, inLayout, rfl⟩ := isPlaced k
  refine ⟨character c, fun candidate => ⟨?_, ?_⟩⟩
  · intro stands
    cases candidate with
    | character d =>
        have found := (lookup_eq_some_iff d _).mp stands
        exact congrArg (fun p => character p.1)
          (isPlacedOnce _ found _ inLayout rfl)
    | escape | other =>
        cases stands
  · rintro rfl
    exact (lookup_eq_some_iff c _).mpr inLayout

theorem AloneStandsFor.restart_ne
    {key : HostKey} {k : Nibble} (stands : key.AloneStandsFor k) :
    restart ≠ key := by
  intro same
  have impossible := (stands restart).mpr same
  cases impossible

end HostKey

/-! ## Events about a key -/

def Cue.event? : Cue → Option Event
  | .event happening => some happening
  | .samples _ => none

def eventsOf (cues : List Cue) : List Event :=
  cues.filterMap Cue.event?

theorem eventsOf_append (earlier later : List Cue) :
    eventsOf (earlier ++ later) = eventsOf earlier ++ eventsOf later :=
  List.filterMap_append

namespace Event

/-- The events that decide whether the key of the keypad is held down for which a
host's key stands. -/
def deciding (key : HostKey) : List Event :=
  [.keyDown key, .keyUp key, .keyDown HostKey.restart]

def decides? (key : HostKey) (event : Event) : Option Bool :=
  if event = .keyDown key then some true
  else if event ∈ deciding key then some false
  else none

theorem latest_decides_iff (key : HostKey) (events : List Event) :
    ((events.filterMap (decides? key)).getLast?).getD false = true ↔
      (events.filter fun event => event ∈ deciding key).getLast? =
        some (.keyDown key) := by
  -- The latest event is the first one from the end.
  rw [List.getLast?_filterMap, List.getLast?_filter]
  induction events.reverse with
  | nil =>
      simp
  | cons event rest inductionHypothesis =>
      rw [List.findSome?_cons, List.find?_cons]
      by_cases goesDown : event = .keyDown key
      · simp [decides?, goesDown, deciding]
      by_cases decides : event ∈ deciding key
      · simp [decides?, goesDown, decides]
      · simpa only [decides?, if_neg goesDown, if_neg decides,
          decide_eq_false decides] using inductionHypothesis

end Event

theorem filterMap_of_inTurn
    (k : Nibble) {stage : Stage} {s : Session} {had : List Operation}
    (inTurn : had <+: s.turnOperations stage) :
    had.filterMap (Operation.decides? k) = [] := by
  rw [List.filterMap_eq_nil_iff]
  intro operation among
  rcases Session.turnOperations_cases (inTurn.subset among) with rfl | rfl <;>
    rfl

section StandsFor

variable {k : Nibble} {key : HostKey} (stands : key.AloneStandsFor k)

include stands

theorem filterMap_keyOperations (pushed : HostKey) (pressed : Bool) :
    (Cue.keyOperations pushed pressed).filterMap (Operation.decides? k) =
      if pushed = key then [pressed] else [] := by
  by_cases same : pushed = key
  · have isNamed := (stands pushed).mpr same
    rw [if_pos same]
    simp [Cue.keyOperations, isNamed, Operation.decides?, Byte.low_setWidth]
  · have isNotNamed := mt (stands pushed).mp same
    rw [if_neg same]
    cases named : pushed.keypadKey? with
    | none =>
        simp [Cue.keyOperations, named]
    | some n =>
        have otherKey : n ≠ k := by
          rintro rfl
          exact isNotNamed named
        simp [Cue.keyOperations, named, Operation.decides?,
          Byte.low_setWidth, otherKey]

theorem filterMap_operations (event : Event) :
    (Cue.event event).operations.filterMap (Operation.decides? k) =
      (event.decides? key).toList := by
  cases event with
  | keyDown pushed =>
      by_cases restarts : pushed = HostKey.restart
      · subst restarts
        simp [Cue.operations, Operation.decides?, Event.decides?,
          Event.deciding, stands.restart_ne]
      · rw [Cue.operations, if_neg restarts, filterMap_keyOperations stands]
        by_cases same : pushed = key <;>
          simp [Event.decides?, Event.deciding, same, restarts]
  | keyUp pushed =>
      rw [Cue.operations, filterMap_keyOperations stands]
      by_cases same : pushed = key <;>
        simp [Event.decides?, Event.deciding, same]
  | quit | other =>
      rfl

theorem filterMap_operationsOf (cues : List Cue) :
    (operationsOf cues).filterMap (Operation.decides? k) =
      (eventsOf cues).filterMap (Event.decides? key) := by
  induction cues with
  | nil =>
      rfl
  | cons cue rest inductionHypothesis =>
      rw [operationsOf, List.flatMap_cons, List.filterMap_append]
      change _ ++ (operationsOf rest).filterMap _ = _
      rw [inductionHypothesis]
      cases cue with
      | samples count =>
          have noEvent : (Cue.samples count).event? = none := rfl
          rw [eventsOf, eventsOf, List.filterMap_cons_none noEvent]
          rfl
      | event event =>
          have isEvent : (Cue.event event).event? = some event := rfl
          rw [filterMap_operations stands, eventsOf, eventsOf,
            List.filterMap_cons_some isEvent, List.filterMap_cons]
          cases event.decides? key <;> rfl

theorem filterMap_operationsThrough
    (stage : Stage) (s : Session) (frames : List (List Cue)) :
    (s.operationsThrough stage frames).filterMap (Operation.decides? k) =
      (eventsOf frames.flatten).filterMap (Event.decides? key) := by
  induction frames generalizing s with
  | nil =>
      rfl
  | cons cues rest inductionHypothesis =>
      have taking :
          Operation.decides? k .takeRedraw = none := rfl
      rw [Session.operationsThrough, Session.frameOperations,
        List.filterMap_append, List.filterMap_append,
        filterMap_operationsOf stands, filterMap_of_inTurn k List.prefix_rfl,
        List.filterMap_cons_none taking, inductionHypothesis,
        List.append_nil, List.flatten_cons, eventsOf_append,
        List.filterMap_append]

end StandsFor

namespace Session

theorem isPressed_of_prepare
    {host : Host} {choices : CommandLine.Choices} {program : List Byte}
    {s : Session} (accepted : prepare host choices program = .ok s)
    (k : Nibble) : s.machine.keypad.isPressed k = false := by
  have loading :=
    (Machine.powerOn choices.settings host.entropy).isPressed_apply
      (.load program) k
  rw [session_of_prepare accepted]
  exact loading.trans (Keypad.isPressed_released k)

theorem isPressed_answer_of_elsewhere
    {k : Nibble} {key : HostKey} (stands : key.AloneStandsFor k) (s : Session)
    {event : Event} (elsewhere : event ∉ Event.deciding key) :
    (s.answer event).machine.keypad.isPressed k =
      s.machine.keypad.isPressed k := by
  have goesDownNot : event ≠ .keyDown key := by
    rintro rfl
    exact elsewhere (List.mem_cons_self ..)
  have noDecision : event.decides? key = none := by
    rw [Event.decides?, if_neg goesDownNot, if_neg elsewhere]
  rw [answer_eq, Machine.isPressed_after, filterMap_operations stands,
    noDecision]
  rfl

/-- Some frames, the events that begin the next one and part of the machine's turn
in it decide about a key what the events among them decide. -/
theorem isPressed_had
    {k : Nibble} {key : HostKey} (stands : key.AloneStandsFor k)
    {stage : Stage} {s : Session} {frames : List (List Cue)}
    (completes : s.Completes stage frames)
    {head : List Cue} (goesOn : ∀ cue ∈ head, cue.ends = false)
    {had : List Operation}
    (inTurn : had <+:
      ((s.through stage frames).poll head).session.turnOperations stage) :
    (((s.through stage frames).poll head).session.machine.after
        had).keypad.isPressed k =
      (((eventsOf (frames.flatten ++ head)).filterMap
        (Event.decides? key)).getLast?).getD
          (s.machine.keypad.isPressed k) := by
  have reached :
      ((s.through stage frames).poll head).session.machine.after had =
        s.machine.after
          (s.operationsThrough stage frames ++ (operationsOf head ++ had)) := by
    rw [((s.through stage frames).poll_of_goesOn goesOn).2,
      machine_through completes, Machine.after_append, Machine.after_append]
  have decided :
      (s.operationsThrough stage frames ++ (operationsOf head ++ had)).filterMap
          (Operation.decides? k) =
        (eventsOf (frames.flatten ++ head)).filterMap (Event.decides? key) := by
    rw [List.filterMap_append, List.filterMap_append,
      filterMap_of_inTurn k inTurn, List.append_nil,
      filterMap_operationsThrough stands, filterMap_operationsOf stands,
      eventsOf_append, List.filterMap_append]
  rw [reached, Machine.isPressed_after, decided]

/-! ## The law of keys -/

/-- After any events, and however much of the machine's turn has been had since, a
key of the keypad is held down exactly if the latest event about it is that the one
host's key which stands for it has gone down.  Besides that key only the one that
starts the program again has to do with it. -/
theorem keypad_follows_keyboard
    {host : Host} {choices : CommandLine.Choices} {program : List Byte}
    {s : Session} (accepted : prepare host choices program = .ok s)
    {frames : List (List Cue)}
    (completes : s.Completes (stageOf host choices) frames)
    {head : List Cue} (goesOn : ∀ cue ∈ head, cue.ends = false) (k : Nibble) :
    let stage := stageOf host choices
    let answered := ((s.through stage frames).poll head).session
    let events := eventsOf (frames.flatten ++ head)
    ∃ key : HostKey,
      (∀ candidate : HostKey,
        candidate.keypadKey? = some k ↔ candidate = key) ∧
      (∀ had, had <+: answered.turnOperations stage →
        ((answered.machine.after had).keypad.isPressed k = true ↔
          (events.filter fun event => event ∈ Event.deciding key).getLast? =
            some (.keyDown key))) ∧
      ∀ event, event ∉ Event.deciding key →
        (answered.answer event).machine.keypad.isPressed k =
          answered.machine.keypad.isPressed k := by
  intro stage answered events
  obtain ⟨key, stands⟩ := HostKey.exists_aloneStandsFor k
  refine ⟨key, stands, ?_, ?_⟩
  · intro had inTurn
    rw [isPressed_had stands completes goesOn inTurn,
      isPressed_of_prepare accepted, Event.latest_decides_iff]
  · intro event elsewhere
    exact isPressed_answer_of_elsewhere stands answered elsewhere

/-- A program that goes round in circles. -/
def circling : Session :=
  opening readyHost { program := "circle" }
    ((Machine.powerOn {} readyHost.entropy).load [0x12, 0x00])

/-- Two keys go down, and then the player is paused. -/
def pressingTwo : List (List Cue) :=
  [[.event (.keyDown (.character 'q')), .event (.keyDown (.character 'x'))],
    [.event (.keyDown HostKey.pause)]]

/-- One of the two keys goes up again while the player is paused. -/
def releasingOne : List Cue := [.event (.keyUp (.character 'x'))]

theorem circling_follows_keyboard :
    let stage := stageOf readyHost { program := "circle" }
    let answered := ((circling.through stage pressingTwo).poll releasingOne).session
    answered.machine.keypad.isPressed 4 = true ∧
      answered.machine.keypad.isPressed 0 = false := by
  intro stage answered
  have accepted :
      prepare readyHost { program := "circle" } [0x12, 0x00] = .ok circling :=
    rfl
  have completes : circling.Completes stage pressingTwo :=
    completes_of_working rfl _ (by decide)
  have goesOn : ∀ cue ∈ releasingOne, cue.ends = false := by decide
  have law := keypad_follows_keyboard accepted completes goesOn
  constructor
  · obtain ⟨key, stands, isPressed, _⟩ := law 4
    obtain rfl : HostKey.character 'q' = key := (stands _).mp rfl
    exact (isPressed [] List.nil_prefix).mpr (by decide)
  · obtain ⟨key, stands, isPressed, _⟩ := law 0
    obtain rfl : HostKey.character 'x' = key := (stands _).mp rfl
    exact Bool.eq_false_iff.mpr
      (mt (isPressed [] List.nil_prefix).mp (by decide))

end Session

end ChipEight.Player

import ChipEight.Proofs.Arguments.Spellings

/-!
# Reading arguments back

An option settles what is pending before it is given itself, so settling after
every option gives the same as settling at the end.  Read like this, the options are
given in turn, the program is named where it stands, and a reader that no option has
left waiting takes no value for the program and no program for a value.

Options that are given in turn are all held as long as they are different ones; the
first one that was there before is turned away.
-/

namespace ChipEight.Arguments

section Reading

variable {Setting Request Refusal : Type} {Value : Setting → Type}

/-! ## Between options -/

/-- A reader that no option has left waiting for a value. -/
structure Reader.Ready (reader : Reader Value) : Prop where
  unseparated : reader.separated = false
  complete : ∀ setting, reader.pending ≠ .option setting none

theorem Reader.ready_start : ({} : Reader Value).Ready := by
  refine ⟨rfl, ?_⟩
  intro setting waits
  cases waits

variable [DecidableEq Setting]

/-! ## Options given in turn -/

namespace Given

variable {given : Given Value}

theorem has_iff (given : Given Value) (setting : Setting) :
    given.has setting = true ↔ setting ∈ given.values.keys := by
  rw [has, List.any_eq_true]
  constructor
  · intro found
    obtain ⟨value, among, same⟩ := found
    rw [← eq_of_beq same]
    exact List.mem_keys_of_mem among
  · intro among
    obtain ⟨value, isValue⟩ := List.exists_of_mem_keys among
    exact ⟨⟨setting, value⟩, isValue, beq_self_eq_true setting⟩

theorem give_of_mem
    {value : Sigma Value} (among : value.1 ∈ given.values.keys) :
    (given.give value : Except (Stop Setting Request Refusal) _) =
      .error (.repeated value.1) := by
  rw [give, if_pos ((has_iff given value.1).mpr among)]

theorem give_of_notMem
    {value : Sigma Value} (isNew : value.1 ∉ given.values.keys) :
    (given.give value : Except (Stop Setting Request Refusal) _) =
      .ok { given with values := given.values ++ [value] } := by
  rw [give, if_neg (mt (has_iff given value.1).mp isNew)]
  rfl

/-- Options given in turn are all held, or the first repetition is told. -/
theorem foldlM_give
    (distinct : given.values.NodupKeys) (more : List (Sigma Value)) :
    ((given.values ++ more).NodupKeys ∧
      (more.foldlM give given : Except (Stop Setting Request Refusal) _) =
        .ok { given with values := given.values ++ more }) ∨
    ∃ setting,
      2 ≤ (given.values ++ more).keys.count setting ∧
      (more.foldlM give given : Except (Stop Setting Request Refusal) _) =
        .error (.repeated setting) := by
  induction more generalizing given with
  | nil =>
      rw [List.append_nil]
      exact .inl ⟨distinct, rfl⟩
  | cons value more ih =>
      -- What is held already decides whether the value is turned away.
      by_cases repeats : value.1 ∈ given.values.keys
      · have before := List.count_pos_iff.mpr repeats
        refine .inr ⟨value.1, ?_, ?_⟩
        · rw [List.keys_append, List.count_append, List.keys_cons,
            List.count_cons_self]
          omega
        · rw [List.foldlM_cons, give_of_mem repeats]
          rfl
      · have distinctNext :
            ({ given with values := given.values ++ [value] } :
              Given Value).values.NodupKeys := by
          rw [List.NodupKeys, List.keys_append]
          exact List.Nodup.append distinct (List.nodup_singleton _)
            (List.disjoint_singleton.mpr repeats)
        have later := ih distinctNext
        rw [List.append_assoc] at later
        rw [List.foldlM_cons, give_of_notMem repeats]
        exact later

/-- Give options in turn and name a program among them. -/
def giveAround (program : String) (before after : List (Sigma Value)) :
    Except (Stop Setting Request Refusal) (Given Value) :=
  before.foldlM give {} >>= fun given =>
    after.foldlM give { given with program := some program }

/-- A program named among the options makes no difference to them. -/
theorem giveAround_cases (program : String) (before after : List (Sigma Value)) :
    ((before ++ after).NodupKeys ∧
      (giveAround program before after :
          Except (Stop Setting Request Refusal) _) =
        .ok { program := some program, values := before ++ after }) ∨
    ∃ setting,
      2 ≤ (before ++ after).keys.count setting ∧
      (giveAround program before after :
          Except (Stop Setting Request Refusal) _) =
        .error (.repeated setting) := by
  have start : ({} : Given Value).values.NodupKeys := List.nodupKeys_nil
  rcases foldlM_give start before with
    ⟨distinct, first⟩ | ⟨setting, twice, first⟩
  · have named :
        ({ program := some program, values := before } :
          Given Value).values.NodupKeys := distinct
    rw [giveAround, first]
    exact foldlM_give named after
  · refine .inr ⟨setting, ?_, ?_⟩
    · rw [List.nil_append] at twice
      rw [List.keys_append, List.count_append]
      omega
    · rw [giveAround, first]
      rfl

end Given

/-! ## What has been given when a reader is settled -/

namespace Declaration

variable {declared : Declaration Setting Request Refusal Value}
  {reader : Reader Value}

/-- The program and the options given, with what is pending. -/
def outcome (declared : Declaration Setting Request Refusal Value)
    (reader : Reader Value) :
    Except (Stop Setting Request Refusal) (Given Value) :=
  declared.settle reader >>= fun settled => .ok settled.given

section Enter

variable {settled : Reader Value} (nothing : settled.pending = .nothing)

include nothing

theorem outcome_enter (entry : declared.Entry) :
    (enter settled entry >>= declared.outcome) =
      settled.given.give entry.gives := by
  rw [enter]
  split
  · change
      (declared.put settled.given entry.setting (some entry.text) >>=
        fun given => .ok { settled with given := given, pending := .nothing }) >>=
          (fun next => .ok next.given) = _
    rw [put_of_reads settled.given entry.reads, bind_assoc]
    exact bind_pure _
  · have settles : ∀ given,
        declared.outcome { settled with given := given } = .ok given := by
      intro given
      rw [outcome, settle]
      simp only [nothing]
      rfl
    rw [bind_assoc]
    exact (bind_congr fun given => settles given).trans (bind_pure _)

theorem ready_enter
    (unseparated : settled.separated = false)
    {entry : declared.Entry} {next : Reader Value}
    (entered : enter settled entry = .ok next) :
    next.Ready ∧ next.hasProgram = settled.given.program.isSome := by
  rw [enter] at entered
  split at entered
  · cases entered
    refine ⟨⟨unseparated, ?_⟩, rfl⟩
    intro setting waits
    cases waits
  · obtain ⟨given, isGiven, same⟩ := exists_of_bind entered
    cases same
    have complete : ∀ setting, settled.pending ≠ .option setting none := by
      intro setting waits
      rw [nothing] at waits
      cases waits
    refine ⟨⟨unseparated, complete⟩, ?_⟩
    simp only [Reader.hasProgram, nothing]
    rw [Given.program_give isGiven]

end Enter

theorem outcome_entry
    (unseparated : reader.separated = false) (entry : declared.Entry) :
    (declared.takeAll reader entry.arguments >>= declared.outcome) =
      declared.outcome reader >>= fun given => given.give entry.gives := by
  rw [takeAll_entry unseparated, outcome, bind_assoc, bind_assoc]
  apply bind_congr_of_ok
  intro settled isSettled
  exact outcome_enter (unpending_of_settle unseparated isSettled).2 entry

theorem ready_entry
    (ready : reader.Ready) {entry : declared.Entry} {next : Reader Value}
    (taken : declared.takeAll reader entry.arguments = .ok next) :
    next.Ready ∧ next.hasProgram = reader.hasProgram := by
  rw [takeAll_entry ready.unseparated] at taken
  obtain ⟨settled, isSettled, entered⟩ := exists_of_bind taken
  obtain ⟨unseparated, nothing⟩ :=
    unpending_of_settle ready.unseparated isSettled
  obtain ⟨isReady, program⟩ := ready_enter nothing unseparated entered
  exact ⟨isReady, program.trans (settle_eq_ok isSettled).2⟩

/-! ## Entries in turn -/

/-- Settling in the end gives the options as if each had been settled at once. -/
theorem outcome_entries (ready : reader.Ready) (entries : List declared.Entry) :
    (declared.takeAll reader (entries.flatMap Entry.arguments) >>=
        declared.outcome) =
      declared.outcome reader >>= fun given =>
        (entries.map Entry.gives).foldlM Given.give given := by
  induction entries generalizing reader with
  | nil =>
      exact (bind_pure (declared.outcome reader)).symm
  | cons entry entries ih =>
      -- The next reader may leave its last value pending; it is the outcome that
      -- agrees, so the step is stated for outcomes and not for readers.
      have step := outcome_entry ready.unseparated entry
      simp only [List.map_cons, List.foldlM_cons]
      rw [List.flatMap_cons, takeAll_append, bind_assoc,
        ← bind_assoc (declared.outcome reader), ← step, bind_assoc]
      apply bind_congr_of_ok
      intro next taken
      exact ih (ready_entry ready taken).1

/-- No entry is mistaken for the program, and none waits for an argument after it. -/
theorem ready_entries
    (ready : reader.Ready) {entries : List declared.Entry} {last : Reader Value}
    (taken :
      declared.takeAll reader (entries.flatMap Entry.arguments) = .ok last) :
    last.Ready ∧ last.hasProgram = reader.hasProgram := by
  induction entries generalizing reader with
  | nil =>
      cases taken
      exact ⟨ready, rfl⟩
  | cons entry entries ih =>
      rw [List.flatMap_cons, takeAll_append] at taken
      obtain ⟨next, first, later⟩ := exists_of_bind taken
      obtain ⟨isReady, program⟩ := ready_entry ready first
      obtain ⟨isReadyLast, programLast⟩ := ih isReady later
      exact ⟨isReadyLast, programLast.trans program⟩

/-! ## The program among the entries -/

section Program

variable {program : List Char} (ready : reader.Ready)
  (unnamed : reader.hasProgram = false) (plain : program.head? ≠ some '-')

include ready unnamed plain

theorem take_program :
    declared.take reader program =
      declared.settle reader >>= fun settled =>
        .ok { settled with pending := .program program } := by
  have position :
      declared.takePlain reader program =
        declared.takePosition reader program := by
    rw [takePlain]
    split
    next setting waits =>
      exact absurd waits (ready.complete setting)
    next =>
      rfl
  rw [take_eq ready.unseparated, ofArgument_plain plain]
  simp only [position]
  rw [takePosition, unnamed]
  rfl

theorem ready_program
    {next : Reader Value} (taken : declared.take reader program = .ok next) :
    next.Ready := by
  rw [take_program ready unnamed plain] at taken
  obtain ⟨settled, isSettled, same⟩ := exists_of_bind taken
  cases same
  refine ⟨(unpending_of_settle ready.unseparated isSettled).1, ?_⟩
  intro setting waits
  cases waits

theorem outcome_program (nonempty : program ≠ []) :
    (declared.take reader program >>= declared.outcome) =
      declared.outcome reader >>= fun given =>
        .ok { given with program := some (String.ofList program) } := by
  have isText : program.isEmpty = false :=
    List.isEmpty_eq_false_iff.mpr nonempty
  rw [take_program ready unnamed plain, outcome, bind_assoc, bind_assoc]
  apply bind_congr_of_ok
  intro settled _
  change declared.outcome { settled with pending := .program program } = _
  rw [outcome, settle]
  simp only [isText]
  rfl

theorem outcome_program_entries
    (nonempty : program ≠ []) (entries : List declared.Entry) :
    (declared.take reader program >>= fun next =>
        declared.takeAll next (entries.flatMap Entry.arguments) >>=
          declared.outcome) =
      declared.outcome reader >>= fun given =>
        (entries.map Entry.gives).foldlM Given.give
          { given with program := some (String.ofList program) } := by
  have named : declared.take reader program >>= declared.outcome = _ :=
    outcome_program ready unnamed plain nonempty
  calc
    _ = declared.take reader program >>= fun next =>
          declared.outcome next >>= fun given =>
            (entries.map Entry.gives).foldlM Given.give given := by
      apply bind_congr_of_ok
      intro next taken
      exact outcome_entries (ready_program ready unnamed plain taken) entries
    _ = _ := by
      rw [← bind_assoc, named, bind_assoc]
      rfl

end Program

/-! ## Whole lines of arguments -/

/-- The arguments that name a program among options. -/
def line (before : List declared.Entry) (program : String)
    (after : List declared.Entry) : List String :=
  before.flatMap Entry.arguments ++ program :: after.flatMap Entry.arguments

theorem read_eq (arguments : List String) :
    declared.read arguments =
      declared.takeAll {} arguments >>= declared.outcome >>=
        Given.complete := by
  rw [bind_assoc]
  apply bind_congr_of_ok
  intro reader _
  rw [outcome, bind_assoc]
  rfl

section Line

variable {program : String} (nonempty : program ≠ "")
  (plain : program.toList.head? ≠ some '-') (before after : List declared.Entry)

include nonempty plain

theorem outcome_line :
    (declared.takeAll {} (line before program after) >>= declared.outcome) =
      Given.giveAround program (before.map Entry.gives)
        (after.map Entry.gives) := by
  have isText : program.toList ≠ [] := mt String.toList_eq_nil_iff.mp nonempty
  have given : _ = (before.map Entry.gives).foldlM Given.give {} :=
    outcome_entries Reader.ready_start before
  rw [line, takeAll_append, bind_assoc, Given.giveAround, ← given, bind_assoc]
  apply bind_congr_of_ok
  intro middle first
  obtain ⟨ready, unnamed⟩ := ready_entries Reader.ready_start first
  have whole := outcome_program_entries ready unnamed plain isText after
  rw [String.ofList_toList] at whole
  rw [takeAll_cons, bind_assoc]
  exact whole

/-- The options of a line are read back in the order in which they were given, with
the program, if they are different ones.  Otherwise one that was given again is
told. -/
theorem read_line :
    (((before ++ after).map Entry.gives).NodupKeys ∧
      declared.read (line before program after) =
        .ok ⟨program, (before ++ after).map Entry.gives⟩) ∨
    ∃ setting,
      2 ≤ ((before ++ after).map Entry.gives).keys.count setting ∧
      declared.read (line before program after) =
        .error (.repeated setting) := by
  rw [read_eq, outcome_line nonempty plain, List.map_append]
  rcases Given.giveAround_cases program (before.map Entry.gives)
      (after.map Entry.gives) with
    ⟨distinct, run⟩ | ⟨setting, twice, run⟩
  · rw [run]
    exact .inl ⟨distinct, rfl⟩
  · rw [run]
    exact .inr ⟨setting, twice, rfl⟩

end Line

end Declaration

end Reading

end ChipEight.Arguments

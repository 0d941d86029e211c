import ChipEight.Proofs.Arguments.Reading
import ChipEight.Proofs.CommandLine.Values

/-!
# Reading command lines back

The options of the player are read back from a command line as they were written.
The reader of arguments gives them in their order, and the choices hold one value
for each.
-/

namespace ChipEight.CommandLine

open Numeral

/-- An option on a command line: its value, a text of it, and a spelling. -/
structure Entry where
  setting : Setting
  value : setting.Value
  text : List Char
  written : setting.Written value text
  spelling : declared.Spelling setting

namespace Entry

/-- The arguments of an entry. -/
def arguments (entry : Entry) : List String :=
  entry.spelling.arguments entry.text

/-- What an entry gives: an option and its value. -/
def gives (entry : Entry) : Sigma Setting.Value :=
  ⟨entry.setting, entry.value⟩

/-- The entry as the reader of arguments takes it. -/
def readable (entry : Entry) : declared.Entry where
  setting := entry.setting
  value := entry.value
  text := entry.text
  reads := Setting.readValue_of_written entry.written
  plain := entry.written.isPlain
  spelling := entry.spelling

theorem keys_gives (entries : List Entry) :
    (entries.map gives).keys = entries.map setting := by
  rw [List.keys, List.map_map]
  rfl

theorem gives_readable (entries : List Entry) :
    (entries.map readable).map Arguments.Declaration.Entry.gives =
      entries.map gives := by
  rw [List.map_map]
  rfl

theorem arguments_readable (entries : List Entry) :
    (entries.map readable).flatMap Arguments.Declaration.Entry.arguments =
      entries.flatMap arguments := by
  rw [List.flatMap_map]
  rfl

end Entry

/-- The arguments of a command line with a program among its options. -/
def commandLine
    (before : List Entry) (program : String) (after : List Entry) :
    List String :=
  before.flatMap Entry.arguments ++ program :: after.flatMap Entry.arguments

/-- Different options make the choices together; one that is given again is told. -/
theorem read_commandLine
    {program : String} (nonempty : program ≠ "")
    (plain : program.toList.head? ≠ some '-') (before after : List Entry) :
    (((before ++ after).map Entry.gives).NodupKeys ∧
      read (commandLine before program after) =
        .ok (.ofReading ⟨program, (before ++ after).map Entry.gives⟩)) ∨
    ∃ setting,
      2 ≤ ((before ++ after).map Entry.gives).keys.count setting ∧
      read (commandLine before program after) =
        .error (.repeated setting) := by
  have whole := Arguments.Declaration.read_line nonempty plain
    (before.map Entry.readable) (after.map Entry.readable)
  rw [Arguments.Declaration.line, Entry.arguments_readable,
    Entry.arguments_readable, ← commandLine, ← List.map_append,
    Entry.gives_readable] at whole
  rcases whole with ⟨distinct, run⟩ | ⟨setting, twice, run⟩
  · refine .inl ⟨distinct, ?_⟩
    rw [read, run, Except.map]
  · refine .inr ⟨setting, twice, ?_⟩
    rw [read, run, Except.map]

/-- Options that are given once each, in any order and spelling and on either side
of the program, are read back with the standard values for the others.  A second
time for one of them is refused. -/
theorem read_back_any_spelling
    {program : String} (nonempty : program ≠ "")
    (plain : program.toList.head? ≠ some '-') (before after : List Entry) :
    (((before ++ after).map Entry.setting).Nodup →
      ∃ choices, read (commandLine before program after) = .ok choices ∧
        choices.program = program ∧
        (∀ entry ∈ before ++ after,
          choices.value? entry.setting = some entry.value) ∧
        ∀ setting, setting ∉ (before ++ after).map Entry.setting →
          choices.value? setting = setting.standard?) ∧
      (¬((before ++ after).map Entry.setting).Nodup →
        ∃ setting,
          2 ≤ ((before ++ after).map Entry.setting).count setting ∧
          read (commandLine before program after) =
            .error (.repeated setting)) := by
  rw [← Entry.keys_gives]
  rcases read_commandLine nonempty plain before after with
    ⟨distinct, run⟩ | ⟨setting, twice, run⟩
  · refine ⟨fun _ => ⟨_, run, Choices.program_foldl_set _ _, ?_, ?_⟩,
      fun repeats => absurd distinct repeats⟩
    · intro entry among
      have given := List.mem_dlookup distinct (List.mem_map_of_mem among)
      rw [Choices.value?_ofReading distinct, Option.mem_def.mp given]
      rfl
    · intro setting absent
      rw [Choices.value?_ofReading distinct, List.dlookup_eq_none.mpr absent]
      rfl
  · refine ⟨fun distinct => ?_, fun _ => ⟨setting, twice, run⟩⟩
    have once := List.nodup_iff_count_le_one.mp distinct setting
    omega

/-- A scale of five. -/
def fiveTimes (spelling : declared.Spelling .scale) : Entry where
  setting := .scale
  value := (5 : Nat)
  text := ['5']
  written := .scale (by decide) (by decide)
    (.intro .absent ((readDecimal?_eq_some_iff _ _).mp (by decide)))
  spelling := spelling

/-- A hundred instructions in every frame, with a plus. -/
def hundredCycles (spelling : declared.Spelling .cyclesPerFrame) : Entry where
  setting := .cyclesPerFrame
  value := (100 : Nat)
  text := ['+', '1', '0', '0']
  written := .cyclesPerFrame (by decide)
    (.intro .plus ((readDecimal?_eq_some_iff _ _).mp (by decide)))
  spelling := spelling

/-- Half the volume, without a digit before the point. -/
def halfVolume (spelling : declared.Spelling .volume) : Entry where
  setting := .volume
  value := Binary32.half
  text := ['.', '5']
  written := .volume (by decide) (by decide)
  spelling := spelling

theorem mixedSpellings_read_back :
    (∃ choices,
      read ["-s5", "--volume=.5", "pong.ch8", "-c", "+100"] = .ok choices ∧
        choices.program = "pong.ch8" ∧
        choices.value? .scale = some (5 : Nat) ∧
        choices.value? .volume = some Binary32.half ∧
        choices.value? .cyclesPerFrame = some (100 : Nat) ∧
        choices.value? .unknownOpcode = some UnknownPolicy.ignore ∧
        choices.value? .seed = none) ∧
      ∃ setting,
        read ["-s=5", "pong.ch8", "--scale", "5"] =
          .error (.repeated setting) := by
  have nonempty : "pong.ch8" ≠ "" := by decide
  have plain : "pong.ch8".toList.head? ≠ some '-' := by decide
  constructor
  · obtain ⟨choices, isChosen, program, given, others⟩ :=
      (read_back_any_spelling nonempty plain
        [fiveTimes (.letterAttached 's' rfl), halfVolume .joined]
        [hundredCycles (.letterApart 'c' rfl)]).1 (by decide)
    exact ⟨choices, isChosen, program,
      given _ List.mem_cons_self,
      given _ (List.mem_cons_of_mem _ List.mem_cons_self),
      given _ (List.mem_cons_of_mem _
        (List.mem_cons_of_mem _ List.mem_cons_self)),
      others .unknownOpcode (by decide), others .seed (by decide)⟩
  · obtain ⟨setting, -, refused⟩ :=
      (read_back_any_spelling nonempty plain
        [fiveTimes (.letterJoined 's' rfl)] [fiveTimes .apart]).2 (by decide)
    exact ⟨setting, refused⟩

end ChipEight.CommandLine

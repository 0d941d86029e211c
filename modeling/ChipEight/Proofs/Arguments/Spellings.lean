import ChipEight.Arguments
import Mathlib.Data.List.Sigma

/-!
# Spellings

An option and its value are spelled in one argument or in two, with the long name
or with a letter.  Whatever the spelling, the arguments of an option settle what was
pending and then give the option its value, at once or when they are settled
themselves.
-/

namespace ChipEight.Arguments

section Spellings

variable {Setting Request Refusal : Type} {Value : Setting → Type}

/-! ## Spelling an option -/

/-- A text that begins neither like an option nor with an equals sign. -/
def IsPlain (text : List Char) : Prop :=
  ∃ c cs, text = c :: cs ∧ c ≠ '-' ∧ c ≠ '='

theorem IsPlain.notHyphen {text : List Char} (plain : IsPlain text) :
    text.head? ≠ some '-' := by
  obtain ⟨c, cs, begins, notHyphen, -⟩ := plain
  simpa [begins] using notHyphen

/-- The ways to write an option with its value; those with a letter need one. -/
inductive Declaration.Spelling
    (declared : Declaration Setting Request Refusal Value) (setting : Setting)
  | apart
  | joined
  | letterApart (letter : Char) (has : declared.letter? setting = some letter)
  | letterAttached (letter : Char)
      (has : declared.letter? setting = some letter)
  | letterJoined (letter : Char) (has : declared.letter? setting = some letter)

variable {declared : Declaration Setting Request Refusal Value}

namespace Declaration.Spelling

variable {setting : Setting}

/-- The arguments of an option with the text of its value. -/
def arguments (text : List Char) : declared.Spelling setting → List String
  | apart => ["--" ++ declared.longName setting, String.ofList text]
  | joined => ["--" ++ declared.longName setting ++ "=" ++ String.ofList text]
  | letterApart letter _ => [String.ofList ['-', letter], String.ofList text]
  | letterAttached letter _ => [String.ofList ('-' :: letter :: text)]
  | letterJoined letter _ => [String.ofList ('-' :: letter :: '=' :: text)]

/-- Whether the value stands in an argument of its own. -/
def isApart : declared.Spelling setting → Bool
  | apart => true
  | letterApart _ _ => true
  | _ => false

end Declaration.Spelling

/-- An option among arguments: its value, a text that is read as this value and can
follow a letter directly, and a spelling. -/
structure Declaration.Entry
    (declared : Declaration Setting Request Refusal Value) where
  setting : Setting
  value : Value setting
  text : List Char
  reads : declared.readValue setting text = .ok value
  plain : IsPlain text
  spelling : declared.Spelling setting

namespace Declaration.Entry

/-- The arguments of an entry. -/
def arguments (entry : declared.Entry) : List String :=
  entry.spelling.arguments entry.text

/-- What an entry gives: an option and its value. -/
def gives (entry : declared.Entry) : Sigma Value :=
  ⟨entry.setting, entry.value⟩

end Declaration.Entry

/-! ## The forms of the arguments -/

theorem ofArgument_long {rest : List Char} (nonempty : rest ≠ []) :
    Form.ofArgument ('-' :: '-' :: rest) =
      .long (String.ofList (rest.takeWhile (· != '='))) (afterEquals? rest) := by
  rw [Form.ofArgument]
  exact nonempty

theorem ofArgument_letters
    {letter : Char} (notHyphen : letter ≠ '-') (rest : List Char) :
    Form.ofArgument ('-' :: letter :: rest) = .short (letter :: rest) := by
  rw [Form.ofArgument]
  · intro same _
    exact notHyphen same
  · exact notHyphen

theorem ofArgument_plain {text : List Char} (plain : text.head? ≠ some '-') :
    Form.ofArgument text = .plain text := by
  have begins : ∀ rest, text ≠ '-' :: rest := by
    intro rest same
    exact plain (by rw [same, List.head?_cons])
  rw [Form.ofArgument]
  · exact begins _
  · exact fun _ => begins _
  · exact fun _ _ => begins _

theorem attachedValue_plain {text : List Char} (plain : IsPlain text) :
    attachedValue text = some text := by
  obtain ⟨c, cs, begins, -, notEquals⟩ := plain
  rw [attachedValue]
  · intro isEmpty
    rw [begins] at isEmpty
    cases isEmpty
  · intro value same
    rw [begins] at same
    exact notEquals (List.cons.inj same).1

namespace Declaration

@[simp] theorem ofLongName?_longName
    (declared : Declaration Setting Request Refusal Value) (setting : Setting) :
    declared.ofLongName? (declared.longName setting) = some setting :=
  declared.named setting

theorem ofLetter?_letter
    {setting : Setting} {letter : Char}
    (has : declared.letter? setting = some letter) :
    declared.ofLetter? letter = some setting :=
  declared.lettered setting letter has

theorem ne_hyphen_of_letter
    {setting : Setting} {letter : Char}
    (has : declared.letter? setting = some letter) : letter ≠ '-' := by
  intro same
  exact declared.letter_ne_hyphen setting (by rw [has, same])

/-- A long name ends before an equals sign or with the argument. -/
theorem ofArgument_named
    (declared : Declaration Setting Request Refusal Value) (setting : Setting)
    {rest : List Char} (ends : rest.takeWhile (· != '=') = []) :
    Form.ofArgument
        ('-' :: '-' :: ((declared.longName setting).toList ++ rest)) =
      .long (declared.longName setting) (afterEquals? rest) := by
  have passes : ∀ c ∈ (declared.longName setting).toList, (c != '=') = true := by
    intro c among
    rw [bne_iff_ne]
    intro same
    rw [same] at among
    exact declared.equals_notMem_name setting among
  have nonempty : (declared.longName setting).toList ++ rest ≠ [] :=
    List.append_ne_nil_of_left_ne_nil (declared.name_nonempty setting) rest
  rw [ofArgument_long nonempty, List.takeWhile_append_of_pos passes, ends,
    List.append_nil, String.ofList_toList, afterEquals?, afterEquals?,
    List.dropWhile_append_of_pos passes]

end Declaration

theorem toList_name (name : String) :
    ("--" ++ name).toList = '-' :: '-' :: (name.toList ++ []) := by
  rw [String.toList_append, List.append_nil]
  rfl

theorem toList_nameEquals (name : String) (text : List Char) :
    ("--" ++ name ++ "=" ++ String.ofList text).toList =
      '-' :: '-' :: (name.toList ++ '=' :: text) := by
  rw [String.toList_append, String.toList_append, String.toList_append,
    String.toList_ofList (l := text), List.append_assoc, List.append_assoc]
  rfl

/-! ## Steps that may stop -/

section Steps

variable {ε α β : Type} {first : Except ε α}

theorem exists_of_bind
    {next : α → Except ε β} {last : β}
    (whole : first >>= next = .ok last) :
    ∃ middle, first = .ok middle ∧ next middle = .ok last := by
  cases first with
  | error stop =>
      cases whole
  | ok middle =>
      exact ⟨middle, rfl, whole⟩

theorem bind_congr_of_ok
    {next other : α → Except ε β}
    (agree : ∀ middle, first = .ok middle → next middle = other middle) :
    (first >>= next) = first >>= other := by
  cases first with
  | error stop =>
      rfl
  | ok middle =>
      exact agree middle rfl

end Steps

/-! ## Giving and settling -/

variable [DecidableEq Setting]

/-- Give an option that must not have been given before. -/
def Given.give (given : Given Value) (value : Sigma Value) :
    Except (Stop Setting Request Refusal) (Given Value) :=
  if given.has value.1 then .error (.repeated value.1)
  else .ok (given.add value.1 value.2)

theorem Given.program_give
    {given next : Given Value} {value : Sigma Value}
    (isGiven :
      (given.give value : Except (Stop Setting Request Refusal) _) = .ok next) :
    next.program = given.program := by
  rw [give] at isGiven
  split at isGiven
  · cases isGiven
  · cases isGiven
    rfl

namespace Declaration

theorem put_of_reads
    (given : Given Value) {setting : Setting} {value : Value setting}
    {text : List Char} (reads : declared.readValue setting text = .ok value) :
    declared.put given setting (some text) = given.give ⟨setting, value⟩ := by
  simp only [put, reads, Given.give]

theorem program_put
    {given next : Given Value} {setting : Setting}
    {value : Option (List Char)}
    (accepted : declared.put given setting value = .ok next) :
    next.program = given.program := by
  cases value with
  | none =>
      cases accepted
  | some text =>
      cases reads : declared.readValue setting text with
      | error refusal =>
          simp only [put, reads] at accepted
          split at accepted <;> cases accepted
      | ok value =>
          rw [put_of_reads given reads] at accepted
          exact Given.program_give accepted

variable {reader : Reader Value}

/-- Settling leaves nothing pending and keeps whether a program has been named. -/
theorem settle_eq_ok
    {settled : Reader Value} (isSettled : declared.settle reader = .ok settled) :
    settled = { reader with given := settled.given, pending := .nothing } ∧
      settled.given.program.isSome = reader.hasProgram := by
  rw [settle] at isSettled
  rw [Reader.hasProgram]
  split at isSettled
  next nothing =>
    cases isSettled
    rw [nothing]
    refine ⟨?_, rfl⟩
    rw [← nothing]
  next text isProgram =>
    rw [isProgram]
    split at isSettled
    · cases isSettled
    · cases isSettled
      exact ⟨rfl, rfl⟩
  next setting value isOption =>
    rw [isOption]
    obtain ⟨given, put, same⟩ := exists_of_bind isSettled
    cases same
    exact ⟨rfl, congrArg Option.isSome (program_put put)⟩

theorem unpending_of_settle
    (unseparated : reader.separated = false)
    {settled : Reader Value} (isSettled : declared.settle reader = .ok settled) :
    settled.separated = false ∧ settled.pending = .nothing := by
  rw [(settle_eq_ok isSettled).1]
  exact ⟨unseparated, rfl⟩

/-! ## Taking the arguments of an entry -/

theorem takeAll_cons (argument : String) (rest : List String) :
    declared.takeAll reader (argument :: rest) =
      declared.take reader argument.toList >>= fun next =>
        declared.takeAll next rest := by
  rw [takeAll, List.map_cons, List.foldlM_cons]
  rfl

theorem takeAll_append (front rest : List String) :
    declared.takeAll reader (front ++ rest) =
      declared.takeAll reader front >>= fun next =>
        declared.takeAll next rest := by
  rw [takeAll, List.map_append, List.foldlM_append]
  rfl

theorem takeAll_singleton (argument : String) :
    declared.takeAll reader [argument] =
      declared.take reader argument.toList := by
  rw [takeAll_cons]
  exact bind_pure _

section Unseparated

variable (unseparated : reader.separated = false)

include unseparated

theorem take_eq (argument : List Char) :
    declared.take reader argument =
      match Form.ofArgument argument with
      | .separator => .ok { reader with separated := true }
      | .long name value => declared.takeLong reader name value
      | .short letters => declared.takeShort reader letters
      | .plain text => declared.takePlain reader text := by
  rw [take, unseparated]
  rfl

theorem take_named
    (setting : Setting) (rest : List Char)
    (ends : rest.takeWhile (· != '=') = []) :
    declared.take reader
        ('-' :: '-' :: ((declared.longName setting).toList ++ rest)) =
      declared.takeOption reader setting (afterEquals? rest) := by
  rw [take_eq unseparated, declared.ofArgument_named setting ends]
  simp only [takeLong, ofLongName?_longName]

theorem take_lettered
    {setting : Setting} {letter : Char}
    (has : declared.letter? setting = some letter) (rest : List Char) :
    declared.take reader ('-' :: letter :: rest) =
      declared.takeOption reader setting (attachedValue rest) := by
  rw [take_eq unseparated, ofArgument_letters (ne_hyphen_of_letter has)]
  simp only [takeShort, ofLetter?_letter has]

theorem take_value
    {setting : Setting} (waits : reader.pending = .option setting none)
    {text : List Char} (plain : text.head? ≠ some '-') :
    declared.take reader text =
      .ok { reader with pending := .option setting (some text) } := by
  rw [take_eq unseparated, ofArgument_plain plain]
  simp only [takePlain, waits]

/-- A value in an argument of its own is pending after it. -/
theorem takeOption_value
    (setting : Setting) {text : List Char} (plain : text.head? ≠ some '-') :
    (declared.takeOption reader setting none >>= fun next =>
        declared.take next text) =
      declared.settle reader >>= fun settled =>
        .ok { settled with pending := .option setting (some text) } := by
  rw [takeOption, bind_assoc]
  apply bind_congr_of_ok
  intro settled isSettled
  have unseparatedNext :
      ({ settled with pending := .option setting none } :
        Reader Value).separated = false :=
    (unpending_of_settle unseparated isSettled).1
  exact take_value unseparatedNext rfl plain

end Unseparated

/-- A value in the same argument is given at once. -/
theorem takeOption_of_reads
    {setting : Setting} {value : Value setting} {text : List Char}
    (reads : declared.readValue setting text = .ok value) :
    declared.takeOption reader setting (some text) =
      declared.settle reader >>= fun settled =>
        settled.given.give ⟨setting, value⟩ >>= fun given =>
          .ok { settled with given := given } := by
  rw [takeOption]
  apply bind_congr_of_ok
  intro settled _
  simp only [put_of_reads settled.given reads]
  rfl

/-- Take an entry when nothing is pending. -/
def enter (reader : Reader Value) (entry : declared.Entry) :
    Except (Stop Setting Request Refusal) (Reader Value) :=
  if entry.spelling.isApart then
    .ok { reader with pending := .option entry.setting (some entry.text) }
  else
    reader.given.give entry.gives >>= fun given =>
      .ok { reader with given := given }

/-- The arguments of an entry settle what is pending and take the entry. -/
theorem takeAll_entry
    (unseparated : reader.separated = false) (entry : declared.Entry) :
    declared.takeAll reader entry.arguments =
      declared.settle reader >>= fun settled => enter settled entry := by
  obtain ⟨setting, value, text, reads, plain, spelling⟩ := entry
  cases spelling with
  | apart =>
      have first : declared.take reader _ = _ :=
        take_named unseparated setting [] rfl
      rw [← toList_name] at first
      rw [Entry.arguments, Spelling.arguments, takeAll_cons, first]
      simp only [takeAll_singleton, String.toList_ofList]
      exact takeOption_value unseparated setting plain.notHyphen
  | joined =>
      have whole : declared.take reader _ = _ :=
        take_named unseparated setting ('=' :: text) rfl
      rw [← toList_nameEquals] at whole
      rw [Entry.arguments, Spelling.arguments, takeAll_singleton, whole]
      exact takeOption_of_reads reads
  | letterApart letter has =>
      have first := take_lettered unseparated has []
      rw [Entry.arguments, Spelling.arguments, takeAll_cons,
        String.toList_ofList, first]
      simp only [takeAll_singleton, String.toList_ofList]
      exact takeOption_value unseparated setting plain.notHyphen
  | letterAttached letter has =>
      have whole := take_lettered unseparated has text
      rw [attachedValue_plain plain] at whole
      rw [Entry.arguments, Spelling.arguments, takeAll_singleton,
        String.toList_ofList, whole]
      exact takeOption_of_reads reads
  | letterJoined letter has =>
      have whole := take_lettered unseparated has ('=' :: text)
      rw [Entry.arguments, Spelling.arguments, takeAll_singleton,
        String.toList_ofList, whole]
      exact takeOption_of_reads reads

end Declaration

end Spellings

end ChipEight.Arguments

/-!
# Arguments

Reading the arguments of a command.  What can be given is declared: options, which
take a value each and can be given once, and requests, which ask for something else
and end the reading.  Besides these the name of one program is given.

The forms of arguments are those that clap documents.  A value follows the long name
of its option after an equals sign or as an argument of its own, and the letter of
its option directly, after an equals sign or as an argument of its own.  A value in
an argument of its own does not begin with a hyphen, unless it is one.  Two hyphens
alone make all later arguments plain.

Arguments are taken one by one.  A value that stands in an argument of its own, and
likewise the name of the program, stays pending until the next argument settles it; an
argument that is itself unknown is turned away before that.
-/

namespace ChipEight.Arguments

/-! ## What can be given -/

/-- The options and requests of a command.  Both are called by a long name, which
follows two hyphens, or by a letter, which follows one; an option needs no letter.
Every option is the first with its long name, and with its letter if it has one, and
its names can be told from what surrounds them. -/
structure Declaration
    (Setting Request Refusal : Type) (Value : Setting → Type) where
  settings : List Setting
  longName : Setting → String
  letter? : Setting → Option Char
  requests : List Request
  requestName : Request → String
  requestLetter : Request → Char
  readValue :
    (setting : Setting) → List Char → Except Refusal (Value setting)
  named : ∀ setting,
    (settings.find? fun other => longName other == longName setting) =
      some setting
  name_nonempty : ∀ setting, (longName setting).toList ≠ []
  equals_notMem_name : ∀ setting, '=' ∉ (longName setting).toList
  lettered : ∀ setting letter, letter? setting = some letter →
    (settings.find? fun other => letter? other == some letter) =
      some setting
  letter_ne_hyphen : ∀ setting, letter? setting ≠ some '-'

/-- Why reading ends before all arguments are read. -/
inductive Stop (Setting Request Refusal : Type)
  | asked (request : Request)
  | programMissing
  | programEmpty
  | argumentUnknown (argument : String)
  | valueMissing (setting : Setting)
  | valueUnwanted (request : Request)
  | valueRefused (refusal : Refusal)
  | repeated (setting : Setting)
deriving DecidableEq, Repr

/-! ## The forms of an argument -/

/-- What an argument looks like. -/
inductive Form
  | separator
  | long (name : String) (value : Option (List Char))
  | short (letters : List Char)
  | plain (text : List Char)
deriving DecidableEq, Repr

/-- What follows the first equals sign, if there is one. -/
def afterEquals? (text : List Char) : Option (List Char) :=
  match text.dropWhile (· != '=') with
  | _ :: value => some value
  | [] => none

/-- The form of an argument.  A lone hyphen is plain. -/
def Form.ofArgument : List Char → Form
  | ['-', '-'] => separator
  | '-' :: '-' :: rest =>
    long (String.ofList (rest.takeWhile (· != '='))) (afterEquals? rest)
  | '-' :: c :: rest => short (c :: rest)
  | text => plain text

/-- The value that follows the letter of an option in the same argument. -/
def attachedValue : List Char → Option (List Char)
  | [] => none
  | '=' :: value => some value
  | value => some value

/-! ## What has been read -/

/-- The program and the options given so far, each option at most once. -/
structure Given {Setting : Type} (Value : Setting → Type) where
  program : Option String := none
  values : List (Sigma Value) := []

/-- What has been read but not yet taken over. -/
inductive Pending (Setting : Type)
  | nothing
  | program (text : List Char)
  | option (setting : Setting) (value : Option (List Char))
deriving DecidableEq, Repr

/-- Arguments read so far.  Once separated, all arguments are plain. -/
structure Reader {Setting : Type} (Value : Setting → Type) where
  given : Given Value := {}
  pending : Pending Setting := .nothing
  separated : Bool := false

/-- All that was given in the end. -/
structure Reading {Setting : Type} (Value : Setting → Type) where
  program : String
  values : List (Sigma Value)

section Steps

variable {Setting Request Refusal : Type} {Value : Setting → Type}

/-- Whether an option has been given. -/
def Given.has [DecidableEq Setting] (given : Given Value)
    (setting : Setting) : Bool :=
  given.values.any fun value => value.1 == setting

/-- Give an option its value. -/
def Given.add (given : Given Value) (setting : Setting)
    (value : Value setting) : Given Value :=
  { given with values := given.values ++ [⟨setting, value⟩] }

/-- Whether a program has been named. -/
def Reader.hasProgram (reader : Reader Value) : Bool :=
  match reader.pending with
  | .program _ => true
  | _ => reader.given.program.isSome

/-- What was given, which must include a program. -/
def Given.complete (given : Given Value) :
    Except (Stop Setting Request Refusal) (Reading Value) :=
  match given.program with
  | none => .error .programMissing
  | some program => .ok { program := program, values := given.values }

namespace Declaration

variable (declared : Declaration Setting Request Refusal Value)

/-- The option with a long name. -/
def ofLongName? (name : String) : Option Setting :=
  declared.settings.find? fun setting => declared.longName setting == name

/-- The option with a letter. -/
def ofLetter? (letter : Char) : Option Setting :=
  declared.settings.find? fun setting =>
    declared.letter? setting == some letter

/-- The request with a long name. -/
def requestOfName? (name : String) : Option Request :=
  declared.requests.find? fun request => declared.requestName request == name

/-- The request with a letter. -/
def requestOfLetter? (letter : Char) : Option Request :=
  declared.requests.find? fun request =>
    declared.requestLetter request == letter

variable [DecidableEq Setting]

/-- Take over an option, with the value that came with it.  A missing value is
noticed before a repetition, and a repetition before a bad value. -/
def put (given : Given Value) (setting : Setting)
    (value : Option (List Char)) :
    Except (Stop Setting Request Refusal) (Given Value) :=
  match value with
  | none => .error (.valueMissing setting)
  | some text =>
    if given.has setting then .error (.repeated setting)
    else
      match declared.readValue setting text with
      | .error refusal => .error (.valueRefused refusal)
      | .ok value => .ok (given.add setting value)

/-- Take over what is pending. -/
def settle (reader : Reader Value) :
    Except (Stop Setting Request Refusal) (Reader Value) :=
  match reader.pending with
  | .nothing => .ok reader
  | .program text =>
    if text.isEmpty then .error .programEmpty
    else
      let given := { reader.given with program := some (String.ofList text) }
      .ok { reader with given := given, pending := .nothing }
  | .option setting value => do
    let given ← declared.put reader.given setting value
    return { reader with given := given, pending := .nothing }

/-- Take an argument that is no option: the program, unless there is one. -/
def takePosition (reader : Reader Value) (text : List Char) :
    Except (Stop Setting Request Refusal) (Reader Value) := do
  if reader.hasProgram then
    throw (.argumentUnknown (String.ofList text))
  let settled ← declared.settle reader
  return { settled with pending := .program text }

/-- Take an option.  One without a value waits for the next argument. -/
def takeOption (reader : Reader Value) (setting : Setting)
    (value : Option (List Char)) :
    Except (Stop Setting Request Refusal) (Reader Value) := do
  let settled ← declared.settle reader
  match value with
  | none => return { settled with pending := .option setting none }
  | some text =>
    let given ← declared.put settled.given setting (some text)
    return { settled with given := given }

/-- Take a request, which ends the reading. -/
def takeRequest (reader : Reader Value) (request : Request) :
    Except (Stop Setting Request Refusal) (Reader Value) := do
  let _ ← declared.settle reader
  throw (.asked request)

/-- Take an argument with a long name. -/
def takeLong (reader : Reader Value) (name : String)
    (value : Option (List Char)) :
    Except (Stop Setting Request Refusal) (Reader Value) :=
  match declared.ofLongName? name, declared.requestOfName? name with
  | some setting, _ => declared.takeOption reader setting value
  | none, some request =>
    match value with
    | none => declared.takeRequest reader request
    | some _ => .error (.valueUnwanted request)
  | none, none => .error (.argumentUnknown ("--" ++ name))

/-- Take an argument of letters.  A request ends the reading and an option takes
all that follows its letter, so only the first letter is looked at. -/
def takeShort (reader : Reader Value) :
    List Char → Except (Stop Setting Request Refusal) (Reader Value)
  | [] => .ok reader
  | letter :: rest =>
    match declared.ofLetter? letter, declared.requestOfLetter? letter with
    | some setting, _ =>
      declared.takeOption reader setting (attachedValue rest)
    | none, some request => declared.takeRequest reader request
    | none, none =>
      .error (.argumentUnknown (String.ofList ['-', letter]))

/-- Take a plain argument: the value that an option waits for, or else the
program. -/
def takePlain (reader : Reader Value) (text : List Char) :
    Except (Stop Setting Request Refusal) (Reader Value) :=
  match reader.pending with
  | .option setting none =>
    .ok { reader with pending := .option setting (some text) }
  | _ => declared.takePosition reader text

/-- Take one argument. -/
def take (reader : Reader Value) (argument : List Char) :
    Except (Stop Setting Request Refusal) (Reader Value) :=
  if reader.separated then declared.takePosition reader argument
  else
    match Form.ofArgument argument with
    | .separator => .ok { reader with separated := true }
    | .long name value => declared.takeLong reader name value
    | .short letters => declared.takeShort reader letters
    | .plain text => declared.takePlain reader text

/-- Take arguments one by one. -/
def takeAll (reader : Reader Value) (arguments : List String) :
    Except (Stop Setting Request Refusal) (Reader Value) :=
  (arguments.map String.toList).foldlM declared.take reader

/-- What arguments give. -/
def read (arguments : List String) :
    Except (Stop Setting Request Refusal) (Reading Value) := do
  let reader ← declared.takeAll {} arguments
  let settled ← declared.settle reader
  settled.given.complete

end Declaration

end Steps

end ChipEight.Arguments

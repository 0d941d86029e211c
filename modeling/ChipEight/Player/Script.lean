import ChipEight.Player.Session

/-!
# Scripts

Cues and requests as words, for a host whose window, keyboard and sound card are
lines of text.
-/

namespace ChipEight.Player

/-- The cues of a line of words: `down` or `up` with a key, `samples` with a
number, `quit`, and any other word for something else that happens. -/
def Cue.ofWords : List String → List Cue
  | [] => []
  | [word] => [.event (if word = "quit" then .quit else .other)]
  | word :: value :: rest =>
    if word = "down" then
      .event (.keyDown (.ofName value)) :: ofWords rest
    else if word = "up" then
      .event (.keyUp (.ofName value)) :: ofWords rest
    else if word = "samples" then
      .samples ((Numeral.readDecimal? value.toList).getD 0) :: ofWords rest
    else if word = "quit" then [.event .quit]
    else .event .other :: ofWords (value :: rest)

/-- Numbers as words. -/
def numberWords (numbers : List Nat) : List String :=
  numbers.map fun n => String.ofList (Numeral.decimal n)

/-- A run of samples as a word: the bits of the sample and how often it comes. -/
def runWord : Binary32 × Nat → String
  | (sample, count) =>
    String.ofList (Numeral.hex 8 sample.bits.toNat ++
      '*' :: Numeral.decimal count)

/-- A request as words. -/
def Call.words : Call → List String
  | start => ["start"]
  | video => ["video"]
  | audio => ["audio"]
  | openAudio frequency channels =>
    "open_audio" :: numberWords [frequency, channels]
  | window caption width height =>
    ["window", caption] ++ numberWords [width, height]
  | renderer => ["renderer"]
  | events => ["events"]
  | color red green blue alpha =>
    "color" :: numberWords
      [red.toNat, green.toNat, blue.toNat, alpha.toNat]
  | clear => ["clear"]
  | box left top right bottom paint =>
    "box" :: numberWords [left, top, right, bottom] ++
      [String.ofList (Numeral.hex 8 paint.toNat)]
  | present => ["present"]
  | resume => ["resume"]
  | pause => ["pause"]
  | title text => ["title", text]
  | samples runs => "samples" :: runs.map runWord

/-- A request as a line. -/
def Call.line (call : Call) : String := " ".intercalate call.words

end ChipEight.Player

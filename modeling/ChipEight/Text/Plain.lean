/-!
# Plain text

Text from outside can hold control characters and the control sequences that a
terminal obeys.  Its plain form leaves both out, and keeps what can be seen and
what parts words and lines.  A sequence begins with the escape character.
-/

namespace ChipEight.PlainText

/-! ## Characters -/

/-- Whether a character lies between two others, these included. -/
def within (low high c : Char) : Bool := low ≤ c && c ≤ high

/-- The character that begins a sequence. -/
def escapeChar : Char := '\x1b'

/-- Whether a character breaks any sequence off. -/
def isCancel (c : Char) : Bool := c == '\x18' || c == '\x1a'

/-- Whether a control character parts words or lines. -/
def isSpacing (c : Char) : Bool :=
  c == '\t' || c == '\n' || c == '\x0c' || c == '\r'

/-- Whether a character has a place in plain text: it parts words or lines, or it
is neither a control character before the blank nor the delete character. -/
def isPlain (c : Char) : Bool :=
  isSpacing c || (' ' ≤ c && c != '\x7f')

/-- Whether the byte that terminates a string is among the bytes of a character. -/
def holdsTerminator (c : Char) : Bool :=
  (String.utf8EncodeChar c).contains 0x9C

/-! ## Sequences -/

/-- How far a sequence has come: just begun, in the middle of a short one, in one
with parameters, in a command to the system, in one of the three parts of the head
of a command to a device, or in the string that is the rest of such a command. -/
inductive Sequence
  | escape
  | intermediate
  | control
  | systemCommand
  | deviceStart
  | deviceParameters
  | deviceIntermediate
  | string
deriving DecidableEq, Repr

/-- Where a reader stands: in plain text, inside a sequence, or in text that
interrupts a sequence. -/
inductive Place
  | text
  | inside (sequence : Sequence)
  | interrupted (sequence : Sequence)
deriving DecidableEq, Repr

namespace Sequence

/-- Whether characters that part words or lines interrupt a sequence; the others
swallow them. -/
def yields : Sequence → Bool
  | escape | intermediate | control => true
  | systemCommand | deviceStart | deviceParameters | deviceIntermediate
  | string => false

/-- Where a sequence goes with a character that neither begins one, nor breaks it
off, nor interrupts it. -/
def next (s : Sequence) (c : Char) : Place :=
  match s with
  | escape =>
    if within ' ' '/' c then .inside intermediate
    else if c = '[' then .inside control
    else if c = ']' then .inside systemCommand
    else if c = 'P' then .inside deviceStart
    else if c = 'X' ∨ c = '^' ∨ c = '_' then .inside string
    else if within '0' '~' c then .text
    else .inside s
  | intermediate => if within '0' '~' c then .text else .inside s
  | control => if within '@' '~' c then .text else .inside s
  | systemCommand => if c = '\x07' then .text else .inside s
  | deviceStart =>
    if within ' ' '/' c then .inside deviceIntermediate
    else if within '0' '?' c then .inside deviceParameters
    else if within '@' '~' c then .inside string
    else .inside s
  | deviceParameters =>
    if within ' ' '/' c then .inside deviceIntermediate
    else if within '<' '~' c then .inside string
    else .inside s
  | deviceIntermediate =>
    if within '0' '~' c then .inside string else .inside s
  | string => if holdsTerminator c then .text else .inside s

end Sequence

/-! ## Reading -/

namespace Place

/-- Whether a character is kept. -/
def keeps : Place → Char → Bool
  | text, c => isPlain c
  | inside s, c => isSpacing c && s.yields
  | interrupted _, c => isPlain c

/-- Where a character leads.  A sequence that was interrupted goes on at the next
character that is not plain, unless one outside the first 128 comes before. -/
def next (place : Place) (c : Char) : Place :=
  if c = escapeChar then inside .escape
  else if isCancel c then text
  else
    match place with
    | text => text
    | inside s => if isSpacing c && s.yields then interrupted s else s.next c
    | interrupted s =>
      if !isPlain c then s.next c
      else if c.toNat < 128 then interrupted s
      else text

end Place

/-- The characters that are kept from a place on. -/
def keepFrom : Place → List Char → List Char
  | _, [] => []
  | place, c :: cs =>
    if place.keeps c then c :: keepFrom (place.next c) cs
    else keepFrom (place.next c) cs

/-- The plain form of a text. -/
def plain (cs : List Char) : List Char := keepFrom .text cs

/-- A text whose lines after the first are set in by four blanks. -/
def indent (cs : List Char) : List Char :=
  cs.flatMap fun c => if c = '\n' then "\n    ".toList else [c]

end ChipEight.PlainText

import ChipEight.Word

/-!
# The host's keyboard

The left-hand block of four rows of four keys stands for the keypad, place by
place:

```text
1 2 3 C      1 2 3 4
4 5 6 D  <-  Q W E R
7 8 9 E      A S D F
A 0 B F      Z X C V
```

Three more keys control the player and one ends it.
-/

namespace ChipEight.Player

/-- A key of the host's keyboard. -/
inductive HostKey
  | character (c : Char)
  | escape
  | other
deriving DecidableEq, Repr

namespace HostKey

/-- The key with a name: a single character, or the name of a key without one.
A name that is not known is that of a key without meaning. -/
def ofName (name : String) : HostKey :=
  match name.toList with
  | [c] => character c
  | _ => if name = "escape" then escape else other

/-- The host's keys with the keys of the keypad they stand for. -/
def layout : List (Char × Nibble) :=
  [('1', 0x1), ('2', 0x2), ('3', 0x3), ('4', 0xC),
    ('q', 0x4), ('w', 0x5), ('e', 0x6), ('r', 0xD),
    ('a', 0x7), ('s', 0x8), ('d', 0x9), ('f', 0xE),
    ('z', 0xA), ('x', 0x0), ('c', 0xB), ('v', 0xF)]

/-- The key of the keypad that a key stands for. -/
def keypadKey? : HostKey → Option Nibble
  | character c => layout.lookup c
  | _ => none

/-- The key that pauses. -/
def pause : HostKey := character ']'

/-- The key that goes on after a pause. -/
def resume : HostKey := character '['

/-- The key that starts the program again. -/
def restart : HostKey := character '\\'

end HostKey

/-- Something that happens at the host's window. -/
inductive Event
  | quit
  | keyDown (key : HostKey)
  | keyUp (key : HostKey)
  | other
deriving DecidableEq, Repr

/-- Whether an event ends the player. -/
def Event.ends : Event → Bool
  | quit => true
  | keyDown .escape => true
  | _ => false

end ChipEight.Player

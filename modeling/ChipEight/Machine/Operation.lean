import ChipEight.Machine.Cycle

/-!
# Histories

Everything a host can do to a machine, as data, and what becomes of a machine
under a history of such operations.
-/

namespace ChipEight

/-- Something a host does to a machine. -/
inductive Operation
  | load (program : List Byte)
  | cycle
  | tick
  | reset
  | clear
  | setKey (key : Byte) (pressed : Bool)
  | clearKeys
  | takeRedraw
deriving DecidableEq, Repr

/-- The machine after a history, with all answers and messages in order. -/
structure Chronicle where
  machine : Machine
  replies : List Reply
  messages : List Message

namespace Machine

def apply (m : Machine) : Operation → Outcome
  | .load program => m.load program
  | .cycle => m.cycle
  | .tick => { machine := m.tick }
  | .reset => { machine := m.reset }
  | .clear => { machine := m.clear }
  | .setKey key pressed => { machine := m.setKey key pressed }
  | .clearKeys => { machine := m.clearKeys }
  | .takeRedraw =>
    { machine := m.takeRedraw.2, reply := .redraw m.takeRedraw.1 }

/-- Do several operations in turn, going on after a refusal. -/
def run (m : Machine) : List Operation → Chronicle
  | [] => ⟨m, [], []⟩
  | operation :: rest =>
    let outcome := m.apply operation
    let later := outcome.machine.run rest
    ⟨later.machine, outcome.reply :: later.replies,
      outcome.messages ++ later.messages⟩

end Machine

end ChipEight

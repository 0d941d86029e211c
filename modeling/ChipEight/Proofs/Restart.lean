import ChipEight.Proofs.Change
import ChipEight.Proofs.History

/-!
# Starting again

A machine that is started again behaves like one that is switched on, but for
what it is meant to keep: its random source and, unless it is cleared, the
program in its memory.  The one thing to be told from outside is that a redraw is
due at once, and that lasts only until the redraw is taken.
-/

namespace ChipEight.Machine

/-! ## A redraw that is due -/

/-- The machine with a redraw due. -/
def due (m : Machine) : Machine := m.changed { redraw := fun _ => true }

theorem due_eq (m : Machine) : m.due = { m with redraw := true } := rfl

theorem advance_due (m : Machine) :
    m.due.advance = { m.advance with machine := m.advance.machine.due } := by
  have sameWord : m.due.nextWord = m.nextWord := rfl
  apply advance_changed sameWord
  intro instruction _
  constructor <;> simp

theorem apply_due
    (m : Machine) {operation : Operation}
    (takesNone : operation ≠ .takeRedraw) :
    (m.due.apply operation).machine = (m.apply operation).machine.due ∧
      (m.due.apply operation).reply = (m.apply operation).reply := by
  cases operation with
  | takeRedraw =>
      exact absurd rfl takesNone
  | cycle =>
      have advanced := m.advance_due
      exact ⟨congrArg Outcome.machine advanced,
        by simp only [apply, reply_cycle, advanced]⟩
  | load program =>
      simp only [apply, load]
      split <;> exact ⟨rfl, rfl⟩
  | _ => exact ⟨rfl, rfl⟩

/-- A redraw that was due stays due until it is taken, and it makes no other
difference. -/
theorem after_due (m : Machine) (history : List Operation) :
    m.due.after history =
      if .takeRedraw ∈ history then m.after history
      else (m.after history).due := by
  induction history generalizing m with
  | nil =>
      rfl
  | cons operation rest inductionHypothesis =>
      by_cases takes : operation = .takeRedraw
      · subst takes
        rw [if_pos (List.mem_cons_self ..)]
        rfl
      · have sameTaken :
            Operation.takeRedraw ∈ operation :: rest ↔
              Operation.takeRedraw ∈ rest := by
          simp [Ne.symm takes]
        simp only [after_cons, (m.apply_due takes).1,
          inductionHypothesis, sameTaken]

/-! ## Behaving alike -/

/-- A machine goes through the same states as another one, whatever is done to
both, but for a redraw that is due to it until it is taken.  It answers every
operation like the other one, but for the first taking of the redraw. -/
def BehavesLikeNew (restarted fresh : Machine) : Prop :=
  ∀ history operation,
    restarted.after history =
        (if .takeRedraw ∈ history then fresh.after history
          else { fresh.after history with redraw := true }) ∧
      ((fresh.after history).redraw = true →
        restarted.after history = fresh.after history) ∧
      ((restarted.after history).apply operation).reply =
        (if operation = .takeRedraw ∧ .takeRedraw ∉ history
          then .redraw true
          else ((fresh.after history).apply operation).reply)

theorem behavesLikeNew_due (m : Machine) : m.due.BehavesLikeNew m := by
  intro history operation
  rw [after_due]
  by_cases taken : Operation.takeRedraw ∈ history
  · simp [taken]
  · refine ⟨by rw [if_neg taken, if_neg taken, due_eq], ?_, ?_⟩
    · intro isDue
      rw [if_neg taken, due_eq, ← isDue]
    · rw [if_neg taken]
      by_cases takes : operation = .takeRedraw
      · rw [if_pos ⟨takes, taken⟩, takes]
        rfl
      · rw [if_neg fun first => takes first.1, (apply_due _ takes).2]

/-! ## The memory after a restart -/

theorem read_store_font (memory : Memory) (a : Address) :
    (memory.store 0 Font.bytes).read a =
      if a.toNat < 80 then Font.bytes.getD a.toNat 0 else memory.read a := by
  have fromStart : (a - 0).toNat = a.toNat := by simp
  rw [Memory.read_store _ _ _ _ (by decide), fromStart]
  by_cases inFont : a.toNat < 80
  · have inBytes : a.toNat < Font.bytes.length := inFont
    rw [if_pos inFont, List.getD_eq_getElem?_getD,
      List.getElem?_eq_getElem inBytes]
    rfl
  · have beyond : Font.bytes.length ≤ a.toNat := Nat.not_lt.mp inFont
    rw [if_neg inFont, List.getElem?_eq_none beyond]
    rfl

theorem store_font_eq (memory : Memory) :
    memory.store 0 Font.bytes =
      (Memory.zero.store 0 Font.bytes).store 0x50
        (memory.window 0x50 4016) := by
  ext a
  have bounded := a.toNat_lt_size
  have distance : (a - 0x50).toNat = (4016 + a.toNat) % 4096 := by
    rw [BitVec.toNat_sub]
    rfl
  rw [Memory.read_store _ 0x50 _ _ (by simp), Memory.getElem?_window,
    read_store_font, read_store_font, distance]
  by_cases inFont : a.toNat < 80
  -- The run of 4016 bytes from 0x50 ends with the memory, so it does not come
  -- round to the font.
  · have outside : ¬(4016 + a.toNat) % 4096 < 4016 := by omega
    rw [if_pos inFont, if_neg outside, if_pos inFont]
    rfl
  · have inside : (4016 + a.toNat) % 4096 < 4016 := by omega
    have back : 0x50 + BitVec.ofNat 12 ((4016 + a.toNat) % 4096) = a := by
      apply BitVec.eq_of_toNat_eq
      simp
      omega
    rw [if_neg inFont, if_pos inside, back]
    rfl

/-! ## Restarts -/

theorem reset_eq_due (m : Machine) (entropy : ChaCha.Key) :
    m.reset =
      due
        { powerOn m.settings entropy with
          memory :=
            (powerOn m.settings entropy).memory.store 0x50
              (m.memory.window 0x50 4016)
          random := m.random } := by
  rw [reset, store_font_eq, due_eq, powerOn]

/-- Starting a machine again is switching it on with its random source, its
settings and the memory above the font, and clearing it is switching it on with
its random source and settings, but for a redraw that is due.  Whatever was
written over the font is gone. -/
theorem restarts_like_powerOn (m : Machine) (entropy : ChaCha.Key) :
    let fresh := powerOn m.settings entropy
    m.reset.BehavesLikeNew
        { fresh with
          memory := fresh.memory.store 0x50 (m.memory.window 0x50 4016)
          random := m.random } ∧
      m.clear.BehavesLikeNew { fresh with random := m.random } ∧
      fresh.redraw = false ∧
      ∀ a : Address,
        m.reset.memory.read a =
          if a.toNat < 80 then Font.bytes.getD a.toNat 0
          else m.memory.read a := by
  intro fresh
  refine ⟨?_, ?_, ?_, ?_⟩
  · rw [m.reset_eq_due entropy]
    exact behavesLikeNew_due _
  · exact behavesLikeNew_due { fresh with random := m.random }
  · rfl
  · exact read_store_font m.memory

end ChipEight.Machine

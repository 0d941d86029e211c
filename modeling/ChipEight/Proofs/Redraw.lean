import ChipEight.Proofs.Cycle
import ChipEight.Proofs.History

/-!
# When the screen is due to be drawn

The screen changes under few operations, and each of these makes it due to be
drawn.  So the screen is due exactly if something has painted since it was last
taken as drawn, and if nothing has, it is the same as then.
-/

namespace ChipEight.Machine

/-! ## Operations that paint -/

/-- An operation starts the machine again, or it is the cycle of a word that
clears the screen or draws a sprite. -/
def Paints (m : Machine) : Operation → Prop
  | .reset => True
  | .clear => True
  | .cycle =>
    (m.nextWord.family = 0 ∧ m.nextWord.lowByte = 0xE0) ∨
      m.nextWord.family = 0xD
  | _ => False

instance (m : Machine) (operation : Operation) :
    Decidable (m.Paints operation) :=
  match operation with
  | .reset | .clear => isTrue trivial
  | .cycle => inferInstanceAs (Decidable (_ ∨ _))
  | .load _ | .tick | .setKey _ _ | .clearKeys | .takeRedraw => isFalse id

/-- Something paints in the course of a history. -/
def Painted (m : Machine) : List Operation → Prop
  | [] => False
  | operation :: rest =>
    m.Paints operation ∨ (m.apply operation).machine.Painted rest

instance decidablePainted (m : Machine) :
    (history : List Operation) → Decidable (m.Painted history)
  | [] => inferInstanceAs (Decidable False)
  | operation :: rest =>
    have := decidablePainted (m.apply operation).machine rest
    inferInstanceAs (Decidable (_ ∨ _))

theorem painted_append_iff
    (m : Machine) (earlier later : List Operation) :
    m.Painted (earlier ++ later) ↔
      m.Painted earlier ∨ (m.after earlier).Painted later := by
  induction earlier generalizing m with
  | nil =>
      simp only [List.nil_append, Painted, after_nil, false_or]
  | cons operation rest inductionHypothesis =>
      simp only [List.cons_append, Painted, after_cons, inductionHypothesis,
        or_assoc]

/-! ## One operation -/

theorem isKnown_of_paints
    {m : Machine} (paints : m.Paints .cycle) : m.nextWord.IsKnown := by
  rcases paints with ⟨family, low⟩ | family
  · exact Or.inr (Or.inl ⟨family, Or.inl low⟩)
  · rw [Word.IsKnown, family]
    exact Or.inl (by decide)

/-- The words that clear the screen or draw a sprite are carried out, whatever
the machine. -/
theorem advance_of_paints
    {m : Machine} (paints : m.Paints .cycle) :
    m.advance.reply = .done ∧ m.advance.machine.redraw = true := by
  rcases paints with clears | draws
  · have asks : m.nextWord.AsksFor .clearScreen := clears
    rw [advance_of_asksFor asks rfl]
    exact ⟨rfl, rfl⟩
  · have asks :
        m.nextWord.AsksFor
          (.draw m.nextWord.x m.nextWord.y m.nextWord.lowNibble) :=
      ⟨draws, rfl, rfl, rfl⟩
    rw [advance_of_asksFor asks rfl]
    exact ⟨rfl, rfl⟩

theorem advance_of_not_paints
    {m : Machine} (paintsNot : ¬m.Paints .cycle) :
    m.advance.machine.screen = m.screen ∧
      m.advance.machine.redraw = m.redraw := by
  rcases m.machine_advance_cases with
    onlyFetched | ⟨instruction, asks, executed⟩
  · rw [onlyFetched]
    exact ⟨rfl, rfl⟩
  · have paints : instruction.paints = false := by
      cases instruction with
      | clearScreen =>
          exact absurd (Or.inl asks) paintsNot
      | draw x y height =>
          exact absurd (Or.inr asks.1) paintsNot
      | _ => rfl
    have kept := keeps_of_executed executed
    exact ⟨kept.screen paints, kept.redraw paints⟩

theorem apply_of_paints
    {m : Machine} {operation : Operation} (paints : m.Paints operation) :
    (m.apply operation).reply = .done ∧
      (m.apply operation).machine.redraw = true := by
  cases operation with
  | cycle =>
      exact advance_of_paints paints
  | reset | clear =>
      exact ⟨rfl, rfl⟩
  | _ =>
      cases paints

/-- What does not paint leaves the screen, and unless it takes the redraw it
leaves that too. -/
theorem apply_of_not_paints
    {m : Machine} {operation : Operation}
    (paintsNot : ¬m.Paints operation) :
    (m.apply operation).machine.screen = m.screen ∧
      (operation ≠ .takeRedraw →
        (m.apply operation).machine.redraw = m.redraw) := by
  cases operation with
  | cycle =>
      obtain ⟨sameScreen, sameRedraw⟩ := advance_of_not_paints paintsNot
      exact ⟨sameScreen, fun _ => sameRedraw⟩
  | reset | clear =>
      exact absurd trivial paintsNot
  | load program =>
      simp only [apply, load]
      split <;> exact ⟨rfl, fun _ => rfl⟩
  | takeRedraw =>
      exact ⟨rfl, fun other => absurd rfl other⟩
  | tick | setKey _ _ | clearKeys =>
      exact ⟨rfl, fun _ => rfl⟩

/-! ## A history -/

theorem screen_after_of_not_painted
    {m : Machine} {history : List Operation}
    (paintedNot : ¬m.Painted history) :
    (m.after history).screen = m.screen := by
  induction history generalizing m with
  | nil =>
      rfl
  | cons operation rest inductionHypothesis =>
      rw [Painted, not_or] at paintedNot
      rw [after_cons, inductionHypothesis paintedNot.2,
        (apply_of_not_paints paintedNot.1).1]

/-- As long as the redraw is not taken, the screen is due if it was due before or
something has painted. -/
theorem redraw_after_iff
    {m : Machine} {history : List Operation}
    (takenNot : .takeRedraw ∉ history) :
    (m.after history).redraw = true ↔
      m.redraw = true ∨ m.Painted history := by
  induction history generalizing m with
  | nil =>
      simp only [after_nil, Painted, or_false]
  | cons operation rest inductionHypothesis =>
      obtain ⟨other, restOther⟩ := not_or.mp (List.mem_cons.not.mp takenNot)
      rw [after_cons, inductionHypothesis restOther, Painted]
      by_cases paints : m.Paints operation
      · simp only [(apply_of_paints paints).2, paints, true_or, or_true]
      · simp only [(apply_of_not_paints paints).2 (Ne.symm other), paints,
          false_or]

theorem redraw_after_iff_of_undue
    {m : Machine} {history : List Operation}
    (undue : m.redraw = false) (takenNot : .takeRedraw ∉ history) :
    (m.after history).redraw = true ↔ m.Painted history := by
  rw [redraw_after_iff takenNot, undue]
  simp only [Bool.false_eq_true, false_or]

/-! ## Since the redraw was last taken -/

/-- A history ends with the operations since the redraw was last taken, or since
its start. -/
theorem exists_last_taken (history : List Operation) :
    ∃ earlier recent, history = earlier ++ recent ∧
      (earlier = [] ∨ earlier.getLast? = some .takeRedraw) ∧
      .takeRedraw ∉ recent := by
  induction history with
  | nil =>
      exact ⟨[], [], rfl, Or.inl rfl, List.not_mem_nil⟩
  | cons operation rest inductionHypothesis =>
      obtain ⟨earlier, recent, rfl, isTaken, takenNot⟩ := inductionHypothesis
      rcases isTaken with rfl | isTaken
      · by_cases takes : operation = .takeRedraw
        · subst takes
          exact ⟨[.takeRedraw], recent, rfl, Or.inr rfl, takenNot⟩
        · refine ⟨[], operation :: recent, rfl, Or.inl rfl, ?_⟩
          exact List.mem_cons.not.mpr (not_or.mpr ⟨Ne.symm takes, takenNot⟩)
      · refine ⟨operation :: earlier, recent, rfl, Or.inr ?_, takenNot⟩
        rw [List.getLast?_cons, isTaken]
        rfl

theorem redraw_after_of_taken
    {m : Machine} {history : List Operation}
    (isTaken : history.getLast? = some .takeRedraw) :
    (m.after history).redraw = false := by
  obtain ⟨earlier, rfl⟩ := List.getLast?_eq_some_iff.mp isTaken
  rw [after_append]
  rfl

/-- An operation that is refused has not painted. -/
theorem redraw_apply_of_refused
    {m : Machine} {operation : Operation} {fault : Fault}
    (refused : (m.apply operation).reply = .refused fault) :
    (m.apply operation).machine.redraw = m.redraw := by
  apply (apply_of_not_paints _).2
  · rintro rfl
    cases refused
  · intro paints
    rw [(apply_of_paints paints).1] at refused
    cases refused

/-- After any history from switching on, the taking of the redraw answers that the
screen is due exactly if something has painted since it was last taken.  If the
answer is that it is not due, the screen is the same as it was then, or dark if it
was never taken.  Nothing but painting sets the redraw and nothing but taking it
ends it; what is refused and what is unknown does neither. -/
theorem redraw_told_of_every_painting
    (settings : Settings) (entropy : ChaCha.Key) (history : List Operation) :
    let start := powerOn settings entropy
    let m := start.after history
    (∃ earlier recent, history = earlier ++ recent ∧
      (earlier = [] ∨ earlier.getLast? = some .takeRedraw) ∧
      .takeRedraw ∉ recent ∧
      let before := start.after earlier
      ((m.apply .takeRedraw).reply = .redraw true ↔ before.Painted recent) ∧
      ((m.apply .takeRedraw).reply = .redraw false →
        ∀ a b, m.screen.pixel a b = before.screen.pixel a b) ∧
      (earlier = [] → ∀ a b, before.screen.pixel a b = false)) ∧
    (∀ operation, operation ≠ .takeRedraw → ¬m.Paints operation →
      (m.apply operation).machine.redraw = m.redraw) ∧
    (∀ operation fault, (m.apply operation).reply = .refused fault →
      (m.apply operation).machine.redraw = m.redraw) ∧
    (¬m.nextWord.IsKnown → m.cycle.machine.redraw = m.redraw) := by
  intro start m
  refine ⟨?_, ?_, ?_, ?_⟩
  · obtain ⟨earlier, recent, cut, isTaken, takenNot⟩ := exists_last_taken history
    refine ⟨earlier, recent, cut, isTaken, takenNot, ?_⟩
    intro before
    have reached : m = before.after recent := by
      change start.after history = _
      rw [cut, after_append]
    have undue : before.redraw = false := by
      rcases isTaken with rfl | isTaken
      · rfl
      · exact redraw_after_of_taken isTaken
    have due : m.redraw = true ↔ before.Painted recent := by
      rw [reached, redraw_after_iff_of_undue undue takenNot]
    have answer : (m.apply .takeRedraw).reply = .redraw m.redraw := rfl
    rw [answer, Reply.redraw.injEq, Reply.redraw.injEq]
    refine ⟨due, ?_, ?_⟩
    · intro isUndue a b
      have paintedNot : ¬before.Painted recent := by
        rw [← due, isUndue]
        exact Bool.false_ne_true
      rw [reached, screen_after_of_not_painted paintedNot]
    · rintro rfl
      exact Screen.pixel_dark
  · intro operation other paintsNot
    exact (apply_of_not_paints paintsNot).2 other
  · intro operation fault
    exact redraw_apply_of_refused
  · intro unknown
    exact (advance_of_not_paints (mt isKnown_of_paints unknown)).2

end ChipEight.Machine

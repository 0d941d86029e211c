import ChipEight.Proofs.Countdown
import ChipEight.Proofs.HeldKeys
import ChipEight.Proofs.RandomStream
import ChipEight.Proofs.Redraw

/-!
# What a cycle leaves alone

Every instruction writes to few parts of the machine, and the word at the counter
tells which.  `Machine.MayWrite` says which registers these are, and
`Machine.nextIndex` where the index points; all other parts are left alone by all
words but one or two.
-/

namespace ChipEight.Machine

/-! ## What a word can change -/

/-- The registers to which the word at the counter may write. -/
def MayWrite (m : Machine) (r : Nibble) : Prop :=
  let w := m.nextWord
  r = w.x ∧
      (w.family = 6 ∨ w.family = 7 ∨
        w.family = 8 ∧ (w.lowNibble ≤ 7 ∨ w.lowNibble = 0xE) ∨
        w.family = 0xC ∨
        w.family = 0xF ∧ w.lowByte = 0x07 ∨
        w.family = 0xF ∧ w.lowByte = 0x0A ∧
          ∃ key, m.keypad.isPressed key = true) ∨
    r = Registers.flag ∧
      (w.family = 8 ∧ w.lowNibble ∈ ([4, 5, 6, 7, 0xE] : List Nibble) ∨
        w.family = 0xD) ∨
    r ≤ w.x ∧ w.family = 0xF ∧ w.lowByte = 0x65

/-- Where the index points after the word at the counter. -/
def nextIndex (m : Machine) : Nat :=
  let w := m.nextWord
  if w.family = 0xA then w.target.toNat
  else if w.family = 0xF ∧ w.lowByte = 0x1E then
    (m.index.toNat + (m.v w.x).toNat) % 4096
  else if w.family = 0xF ∧ w.lowByte = 0x29 then 5 * (m.v w.x).toNat
  else m.index.toNat

theorem settings_advance (m : Machine) :
    m.advance.machine.settings = m.settings := by
  rcases m.machine_advance_cases with onlyFetched | ⟨_, _, executed⟩
  · rw [onlyFetched]
    rfl
  · exact (spares_of_executed executed).settings

theorem mayWrite_of_targets
    {m : Machine} {instruction : Instruction} {r : Nibble}
    (asks : m.nextWord.AsksFor instruction)
    (targets : m.fetch.Targets instruction r) : m.MayWrite r := by
  cases instruction with
  | assign x value | increase x value | random x mask =>
      obtain ⟨family, rfl, rfl⟩ := asks
      exact Or.inl ⟨targets, by simp [family]⟩
  | readDelay x =>
      obtain ⟨family, low, rfl⟩ := asks
      exact Or.inl ⟨targets, by simp [family, low]⟩
  | awaitKey x =>
      obtain ⟨family, low, rfl⟩ := asks
      obtain ⟨isFirst, someHeld⟩ := targets
      have held : ∃ key, m.keypad.isPressed key = true := someHeld
      exact Or.inl ⟨isFirst, by simp [family, low, held]⟩
  | combine operation x y =>
      obtain ⟨family, code, rfl, rfl⟩ := asks
      rcases targets with isFirst | ⟨isFlag, leaves⟩
      · refine Or.inl ⟨isFirst, Or.inr (Or.inr (Or.inl ⟨family, ?_⟩))⟩
        rw [code]
        cases operation <;> decide
      · refine Or.inr (Or.inl ⟨isFlag, Or.inl ⟨family, ?_⟩⟩)
        rw [code]
        revert leaves
        cases operation <;> decide
  | draw x y height =>
      exact Or.inr (Or.inl ⟨targets, Or.inr asks.1⟩)
  | loadRegisters last =>
      obtain ⟨family, low, rfl⟩ := asks
      exact Or.inr (Or.inr ⟨targets, family, low⟩)
  | _ =>
      cases targets

/-- A register to which the word at the counter cannot write keeps its value. -/
theorem v_advance_of_spared
    {m : Machine} {r : Nibble} (spared : ¬m.MayWrite r) :
    m.advance.machine.v r = m.v r := by
  rcases m.machine_advance_cases with
    onlyFetched | ⟨instruction, asks, executed⟩
  · rw [onlyFetched]
    rfl
  · exact (spares_of_executed executed).registers r
      (mt (mayWrite_of_targets asks) spared)

/-- The words that leave no flag write to the flag register only if they name it. -/
theorem flag_spared
    {m : Machine}
    (leavesNone :
      m.nextWord.family ∈ ([3, 4, 5, 7, 9, 0xC, 0xE] : List Nibble) ∨
        m.nextWord.family = 8 ∧ m.nextWord.lowNibble ≤ 3)
    (otherRegister : m.nextWord.x ≠ Registers.flag) :
    ¬m.MayWrite Registers.flag := by
  have otherFamily :
      m.nextWord.family ≠ 0xD ∧ m.nextWord.family ≠ 0xF := by
    rcases leavesNone with family | ⟨family, _⟩
    · constructor <;> intro other <;> rw [other] at family <;>
        exact absurd family (by decide)
    · rw [family]
      decide
  have noneBelow : ∀ n : Nibble, n ≤ 3 →
      n ∉ ([4, 5, 6, 7, 0xE] : List Nibble) := by
    decide
  rintro (⟨isFirst, _⟩ | ⟨_, ⟨isArithmetic, low⟩ | draws⟩ | ⟨_, loads, _⟩)
  · exact otherRegister isFirst.symm
  · rcases leavesNone with family | ⟨_, noFlag⟩
    · rw [isArithmetic] at family
      exact absurd family (by decide)
    · exact noneBelow _ noFlag low
  · exact otherFamily.1 draws
  · exact otherFamily.2 loads

theorem spared_of_advanceIndex
    {m : Machine}
    (advances : m.nextWord.family = 0xF ∧ m.nextWord.lowByte = 0x1E)
    (r : Nibble) : ¬m.MayWrite r := by
  simp [MayWrite, advances]

theorem nextIndex_of_still
    {m : Machine}
    (still : ∀ instruction, m.nextWord.AsksFor instruction →
      instruction.movesIndex = false) :
    m.nextIndex = m.index.toNat := by
  have movesNot : ∀ instruction, instruction.movesIndex = true →
      ¬m.nextWord.AsksFor instruction := by
    intro instruction moves asks
    have movesNone := still instruction asks
    rw [moves] at movesNone
    cases movesNone
  have noSet := movesNot (.setIndex m.nextWord.target) rfl
  have noAdvance := movesNot (.advanceIndex m.nextWord.x) rfl
  have noPoint := movesNot (.pointGlyph m.nextWord.x) rfl
  simp only [Word.AsksFor, and_true] at noSet noAdvance noPoint
  simp only [nextIndex, if_neg noSet, if_neg noAdvance, if_neg noPoint]

theorem index_advance_of_still
    {m : Machine}
    (still : ∀ instruction, m.nextWord.AsksFor instruction →
      instruction.movesIndex = false) :
    m.advance.machine.index = m.index := by
  rcases m.machine_advance_cases with
    onlyFetched | ⟨instruction, asks, executed⟩
  · rw [onlyFetched]
    rfl
  · exact (spares_of_executed executed).index (still _ asks)

theorem index_advance (m : Machine) :
    m.advance.machine.index.toNat = m.nextIndex := by
  by_cases moves : ∃ instruction,
      m.nextWord.AsksFor instruction ∧ instruction.movesIndex = true
  · obtain ⟨instruction, asks, moves⟩ := moves
    cases instruction with
    | setIndex target =>
        rw [advance_of_asksFor asks rfl]
        obtain ⟨family, rfl⟩ := asks
        simp only [nextIndex, if_pos family]
    | advanceIndex x =>
        rw [advance_of_asksFor asks rfl]
        obtain ⟨family, low, rfl⟩ := asks
        have advances :
            m.nextIndex =
              (m.index.toNat + (m.v m.nextWord.x).toNat) % 4096 := by
          simp [nextIndex, family, low]
        rw [advances]
        simp [Byte.toAddress, v, fetch]
    | pointGlyph x =>
        rw [advance_of_asksFor asks rfl]
        obtain ⟨family, low, rfl⟩ := asks
        have points : m.nextIndex = 5 * (m.v m.nextWord.x).toNat := by
          simp [nextIndex, family, low]
        rw [points]
        exact Font.toNat_glyphAddress (m.v m.nextWord.x)
    | _ =>
        cases moves
  · have still : ∀ instruction, m.nextWord.AsksFor instruction →
        instruction.movesIndex = false := by
      intro instruction asks
      rw [← Bool.not_eq_true]
      exact fun movesIt => moves ⟨instruction, asks, movesIt⟩
    rw [index_advance_of_still still, nextIndex_of_still still]

/-- Only a call that has room and a return that has a frame change the stack. -/
theorem stack_advance_of_blind
    {m : Machine}
    (noCall : ¬(m.nextWord.family = 2 ∧ m.stack.depth < 16))
    (noReturn :
      ¬(m.nextWord.family = 0 ∧ m.nextWord.lowByte = 0xEE ∧
        0 < m.stack.depth)) :
    m.advance.machine.stack = m.stack := by
  rcases m.machine_advance_cases with
    onlyFetched | ⟨instruction, asks, executed⟩
  · rw [onlyFetched]
    rfl
  · rcases stack_of_executed executed with
      kept | ⟨target, rfl, pushed⟩ | ⟨rfl, popped⟩
    · exact kept
    · have room : m.stack.depth < 16 :=
        (CallStack.push?_eq_some_iff.mp pushed).1
      exact absurd ⟨asks.1, room⟩ noCall
    · have oneLess := CallStack.depth_of_pop? popped
      have someFrame : 0 < m.stack.depth :=
        oneLess ▸ Nat.succ_pos _
      exact absurd ⟨asks.1, asks.2, someFrame⟩ noReturn

/-! ## The law of confined changes -/

/-- A cycle changes no setting and no key.  The word at the counter tells which
other parts it can change: the screen, either timer, the random source, the stack,
the index and each register are left alone by all words but few.  No cycle takes
the redraw back.  In particular the flag register keeps its value under the words
that leave no flag, unless they name it as their destination. -/
theorem changes_confined_by_word (m : Machine) :
    let w := m.nextWord
    let next := m.cycle.machine
    next.keypad = m.keypad ∧ next.settings = m.settings ∧
      (next.screen ≠ m.screen →
        w.family = 0 ∧ w.lowByte = 0xE0 ∨ w.family = 0xD) ∧
      (next.timers.delay ≠ m.timers.delay →
        w.family = 0xF ∧ w.lowByte = 0x15) ∧
      (next.timers.sound ≠ m.timers.sound →
        w.family = 0xF ∧ w.lowByte = 0x18) ∧
      (next.random ≠ m.random → w.family = 0xC) ∧
      (next.stack ≠ m.stack →
        w.family = 2 ∧ m.stack.depth < 16 ∨
          w.family = 0 ∧ w.lowByte = 0xEE ∧ 0 < m.stack.depth) ∧
      next.index.toNat = m.nextIndex ∧
      (∀ r, next.v r ≠ m.v r → m.MayWrite r) ∧
      (m.redraw = true → next.redraw = true) ∧
      (w.family ∈ ([3, 4, 5, 7, 9, 0xC, 0xE] : List Nibble) ∨
          w.family = 8 ∧ w.lowNibble ≤ 3 →
        w.x ≠ Registers.flag →
          next.v Registers.flag = m.v Registers.flag) ∧
      (w.family = 0xF ∧ w.lowByte = 0x1E →
        next.v Registers.flag = m.v Registers.flag) := by
  intro w next
  have paintsOrKeeps : ¬m.Paints .cycle →
      next.screen = m.screen ∧ next.redraw = m.redraw :=
    advance_of_not_paints
  have spared : ∀ r, ¬m.MayWrite r → next.v r = m.v r :=
    fun r => v_advance_of_spared
  refine ⟨m.keypad_advance, m.settings_advance, ?_, ?_, ?_, ?_, ?_,
    m.index_advance, ?_, ?_, ?_, ?_⟩
  · intro changed
    by_contra paintsNot
    exact changed (paintsOrKeeps paintsNot).1
  · intro changed
    by_contra setsNot
    exact changed ((m.value_advance .delay).trans (if_neg setsNot))
  · intro changed
    by_contra setsNot
    exact changed ((m.value_advance .sound).trans (if_neg setsNot))
  · intro changed
    by_contra otherFamily
    exact changed (random_advance_of_other otherFamily)
  · intro changed
    by_contra blind
    obtain ⟨noCall, noReturn⟩ := not_or.mp blind
    exact changed (stack_advance_of_blind noCall noReturn)
  · intro r changed
    by_contra writesNot
    exact changed (spared r writesNot)
  · intro due
    by_cases paints : m.Paints .cycle
    · exact (advance_of_paints paints).2
    · rw [(paintsOrKeeps paints).2, due]
  · intro word otherRegister
    exact spared _ (flag_spared word otherRegister)
  · intro word
    exact spared _ (spared_of_advanceIndex word _)

end ChipEight.Machine

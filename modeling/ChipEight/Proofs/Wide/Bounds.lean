import ChipEight.Proofs.History
import ChipEight.Proofs.Wide.Words

/-!
# The machine stays in bounds

Every operation on wide numbers stays in bounds and comes to what the machine
comes to, so a whole history does.  All addresses and the depth of the stack
are then in range after any history, and no word at the counter can lead out of
bounds.
-/

namespace ChipEight.WideMachine

open Checked

variable {m : Machine} {slots : Vector Word 16} {w : Word}

/-! ## Operations -/

theorem shift_or_eq_ofBytes (high low : Byte) :
    high.setWidth 16 <<< 8 ||| low.setWidth 16 = Word.ofBytes high low := by
  apply BitVec.eq_of_getLsbD_eq
  intro i inside
  rw [Word.ofBytes, BitVec.getLsbD_append, BitVec.getLsbD_or,
    BitVec.getLsbD_shiftLeft, BitVec.getLsbD_setWidth, BitVec.getLsbD_setWidth]
  by_cases isLow : i < 8
  · simp [isLow, inside]
  · have beyond : low.getLsbD i = false :=
      BitVec.getLsbD_of_ge low i (Nat.not_lt.mp isLow)
    have within : i - 8 < 16 := by
      omega
    simp [isLow, inside, beyond, within]

theorem cycle_reaches (carries : Carries slots m.stack) :
    Reaches (m.widen slots).cycle m.cycle := by
  have low :
      (m.widen slots).readByte ((m.widen slots).pc + 1) =
        .ok (m.memory.read (m.pc + 1)) := by
    have wide := readByte_widen m slots (m.pc.toWord + 1)
    rw [setWidth_toWord_add] at wide
    exact wide
  have high :
      (m.widen slots).readByte (m.widen slots).pc =
        .ok (m.memory.read m.pc) := by
    have wide := readByte_widen m slots m.pc.toWord
    rw [setWidth_toWord] at wide
    exact wide
  have word :
      (m.memory.read m.pc).setWidth 16 <<< 8 |||
          (m.memory.read (m.pc + 1)).setWidth 16 =
        m.nextWord :=
    shift_or_eq_ofBytes _ _
  have obeyed : Reaches ((m.widen slots).obey m.nextWord) m.advance := by
    rw [m.advance_eq_obey]
    exact obey_reaches carries
  rw [cycle, high, ok_bind, low, ok_bind, word]
  exact obeyed

theorem load_reaches (carries : Carries slots m.stack) (program : List Byte) :
    Reaches ((m.widen slots).load program) (m.load program) := by
  by_cases tooLarge : 3584 < program.length
  · have refused : ¬program.length ≤ Machine.programLimit :=
      Nat.not_le.mpr tooLarge
    rw [load, if_pos tooLarge, Machine.load, if_neg refused]
    exact ⟨slots, carries, rfl⟩
  · have fitting : program.length ≤ Machine.programLimit :=
      Nat.not_lt.mp tooLarge
    have short : program.length ≤ 3584 := Nat.not_lt.mp tooLarge
    have sumFits : 0x200 + program.length < Nat.pow 2 64 :=
      Nat.lt_of_le_of_lt (Nat.add_le_add_left short _) (by decide)
    have put :
        overlay (m.widen slots).memory 0x200 program =
          .ok (m.memory.store Machine.programStart program).cells :=
      overlay_eq m.memory Machine.programStart program
        (Nat.add_le_add_left short 0x200)
    rw [load, if_neg tooLarge, Machine.load, if_pos fitting,
      fits_eq sumFits, ok_bind, put, ok_bind]
    exact ⟨slots, carries, rfl⟩

theorem reset_widen :
    (m.widen slots).reset =
      .ok (m.reset.widen (Vector.replicate 16 0)) := by
  have font :
      overlay (m.widen slots).memory 0 Font.bytes =
        .ok (m.memory.store 0 Font.bytes).cells :=
    overlay_eq m.memory 0 Font.bytes (by decide)
  rw [reset, font, ok_bind]
  rfl

theorem clear_widen :
    (m.widen slots).clear =
      .ok (m.clear.widen (Vector.replicate 16 0)) :=
  reset_widen (m := { m with memory := .zero })

theorem apply_reaches
    (carries : Carries slots m.stack) (operation : Operation) :
    Reaches ((m.widen slots).apply operation) (m.apply operation) := by
  cases operation with
  | load program =>
      exact load_reaches carries program
  | cycle =>
      exact cycle_reaches carries
  | tick =>
      refine ⟨slots, carries, ?_⟩
      rw [apply, tick_widen, ok_bind]
      rfl
  | reset =>
      refine ⟨Vector.replicate 16 0, Carries.empty _, ?_⟩
      rw [apply, reset_widen, ok_bind]
      rfl
  | clear =>
      refine ⟨Vector.replicate 16 0, Carries.empty _, ?_⟩
      rw [apply, clear_widen, ok_bind]
      rfl
  | setKey key pressed =>
      refine ⟨slots, carries, ?_⟩
      rw [apply, setKey_widen, ok_bind]
      rfl
  | clearKeys =>
      exact ⟨slots, carries, rfl⟩
  | takeRedraw =>
      exact ⟨slots, carries, rfl⟩

theorem run_widen
    (carries : Carries slots m.stack) (history : List Operation) :
    ∃ later, Carries later (m.run history).machine.stack ∧
      (m.widen slots).run history =
        .ok ((m.run history).machine.widen later,
          (m.run history).replies) := by
  induction history generalizing m slots with
  | nil =>
      exact ⟨slots, carries, rfl⟩
  | cons operation rest inductionHypothesis =>
      obtain ⟨next, nextCarries, applied⟩ := apply_reaches carries operation
      obtain ⟨later, laterCarries, ran⟩ := inductionHypothesis nextCarries
      refine ⟨later, laterCarries, ?_⟩
      rw [run, applied, ok_bind, ran, ok_bind]
      rfl

/-! ## Switching on -/

theorem powerOn_widen (settings : Settings) (entropy : ChaCha.Key) :
    powerOn settings entropy =
      .ok ((Machine.powerOn settings entropy).widen
        (Vector.replicate 16 0)) := by
  have started :=
    @reset_widen { Machine.powerOn settings entropy with memory := .zero }
      (Vector.replicate 16 0)
  have entered :
      powerOn settings entropy =
        (Machine.widen
          { Machine.powerOn settings entropy with memory := .zero }
          (Vector.replicate 16 0)).reset >>= fun started =>
            pure { started with redraw := false } := rfl
  rw [entered, started, ok_bind]
  rfl

/-! ## Bounds -/

theorem inRange_widen (carries : Carries slots m.stack) :
    (m.widen slots).InRange where
  depth := by
    rw [depth_widen]
    exact m.stack.depth_le
  pc := by
    have counter : (m.widen slots).pc.toNat = m.pc.toNat :=
      Address.toNat_toWord m.pc
    rw [counter]
    exact m.pc.toNat_lt_size
  index := by
    have index : (m.widen slots).index.toNat = m.index.toNat :=
      Address.toNat_toWord m.index
    rw [index]
    exact m.index.toNat_lt_size
  frames := by
    intro k inUse
    rw [depth_widen] at inUse
    have carried : slots[k] ∈ slots.toList.take m.stack.depth := by
      rw [List.mem_take_iff_getElem]
      refine ⟨k.val, ?_, ?_⟩
      · rw [Vector.length_toList]
        exact Nat.lt_min.mpr ⟨inUse, k.isLt⟩
      · exact Vector.getElem_toList _
    rw [carries, List.mem_map] at carried
    obtain ⟨address, _, sameWord⟩ := carried
    change slots[k].toNat < 4096
    rw [← sameWord, Address.toNat_toWord]
    exact address.toNat_lt_size

/-- Whatever is done to a machine after it is switched on, no operation
breaches its bounds.  Afterwards all addresses and the depth of the stack are in
range, the stack can be looked at, and a cycle with any word breaches nothing.
All along the machine on wide numbers is the machine, with the same answers. -/
theorem history_stays_in_bounds
    (settings : Settings) (entropy : ChaCha.Key)
    (history : List Operation) :
    ∃ started state slots,
      powerOn settings entropy = .ok started ∧
      started.run history =
        .ok (state,
          ((Machine.powerOn settings entropy).run history).replies) ∧
      state =
        ((Machine.powerOn settings entropy).after history).widen slots ∧
      state.InRange ∧
      state.frames =
        .ok (((Machine.powerOn settings entropy).after
          history).stack.toList.map Address.toWord) ∧
      (∃ done, state.cycle = .ok done ∧ done.1.InRange) ∧
      ∀ w, ∃ done, state.obey w = .ok done ∧ done.1.InRange := by
  obtain ⟨slots, carries, ran⟩ :=
    run_widen (m := Machine.powerOn settings entropy)
      (Carries.empty (Vector.replicate 16 0)) history
  refine ⟨_, _, slots, powerOn_widen settings entropy, ran, rfl,
    inRange_widen carries, frames_widen _ _ carries, ?_, ?_⟩
  · obtain ⟨later, laterCarries, done⟩ := cycle_reaches carries
    exact ⟨_, done, inRange_widen laterCarries⟩
  · intro w
    obtain ⟨later, laterCarries, done⟩ := obey_reaches (w := w) carries
    exact ⟨_, done, inRange_widen laterCarries⟩

/-- Out of range the checks do bite: a stack that is too deep cannot be looked
at. -/
example (s : WideMachine) :
    { s with depth := 17 }.frames = .error .slice :=
  rfl

end ChipEight.WideMachine

import ChipEight.Proofs.Cycle
import ChipEight.Proofs.History

/-!
# The policy for unknown words

The policy decides how an unknown word is reported and nothing else.  Every
operation commutes with a change of policy, so two machines that differ in their
policies alone go through the same states, and their answers differ only where an
unknown word is met.
-/

namespace ChipEight.Machine

/-- The same machine under another policy. -/
def withPolicy (m : Machine) (policy : UnknownPolicy) : Machine :=
  { m with settings := { m.settings with unknown := policy } }

theorem withPolicy_withPolicy
    (m : Machine) (first second : UnknownPolicy) :
    (m.withPolicy first).withPolicy second = m.withPolicy second :=
  rfl

/-! ## One operation -/

theorem combine_withPolicy
    (m : Machine) (policy : UnknownPolicy)
    (operation : Arithmetic) (x y : Nibble) :
    (m.withPolicy policy).combine operation x y =
      (m.combine operation x y).withPolicy policy := by
  cases operation <;> rfl

theorem skipIf_withPolicy
    (m : Machine) (policy : UnknownPolicy) (condition : Bool) :
    (m.withPolicy policy).skipIf condition =
      (m.skipIf condition).withPolicy policy := by
  cases condition <;> rfl

theorem execute_withPolicy
    (m : Machine) (policy : UnknownPolicy) (instruction : Instruction) :
    (m.withPolicy policy).execute instruction =
      (m.execute instruction).map fun next => next.withPolicy policy := by
  cases instruction with
  | ret =>
      cases popped : m.stack.pop? <;>
        simp [execute, popped, Except.map, withPolicy]
  | call target =>
      cases pushed : m.stack.push? m.pc <;>
        simp [execute, pushed, Except.map, withPolicy]
  | awaitKey x =>
      cases pressed : m.keypad.firstPressed <;>
        simp [execute, pressed, Except.map, withPolicy, setRegister]
  | combine operation x y =>
      simp only [execute, combine_withPolicy, Except.map]
  | skipEqual x value | skipUnequal x value | skipSame x value
  | skipDifferent x value | skipPressed x | skipReleased x =>
      simp only [execute, skipIf_withPolicy, Except.map]
      rfl
  | _ => rfl

/-! ## One cycle -/

/-- A known word is answered alike under every policy. -/
theorem advance_withPolicy_of_known
    {m : Machine} (policy : UnknownPolicy) (known : m.nextWord.IsKnown) :
    (m.withPolicy policy).advance =
      { m.advance with machine := m.advance.machine.withPolicy policy } := by
  have sameWord : (m.withPolicy policy).nextWord = m.nextWord := rfl
  apply advance_map (fun next => next.withPolicy policy) sameWord rfl
  · intro decoded
    exact absurd known ((Instruction.decode_eq_none_iff _).mp decoded)
  · intro _
    rfl
  · intro instruction _
    exact m.fetch.execute_withPolicy policy instruction

theorem advance_withPolicy_of_unknown
    {m : Machine} (policy : UnknownPolicy)
    (isUnknown : ¬m.nextWord.IsKnown) :
    (m.withPolicy policy).advance =
      (m.fetch.withPolicy policy).meetUnknown m.nextWord m.pc := by
  have decoded :
      Instruction.decode (m.withPolicy policy).nextWord = none :=
    (Instruction.decode_eq_none_iff _).mpr isUnknown
  exact advance_of_unknown decoded

theorem machine_advance_withPolicy
    (m : Machine) (policy : UnknownPolicy) :
    (m.withPolicy policy).advance.machine =
      m.advance.machine.withPolicy policy := by
  by_cases known : m.nextWord.IsKnown
  · rw [advance_withPolicy_of_known policy known]
  · have decoded := (Instruction.decode_eq_none_iff _).mpr known
    rw [advance_withPolicy_of_unknown policy known,
      advance_of_unknown decoded, machine_meetUnknown, machine_meetUnknown]

/-! ## Histories -/

theorem machine_apply_withPolicy
    (m : Machine) (policy : UnknownPolicy) (operation : Operation) :
    ((m.withPolicy policy).apply operation).machine =
      (m.apply operation).machine.withPolicy policy := by
  cases operation with
  | cycle =>
      exact m.machine_advance_withPolicy policy
  | load program =>
      simp only [apply, load]
      split <;> rfl
  | _ => rfl

theorem after_withPolicy
    (m : Machine) (policy : UnknownPolicy) (history : List Operation) :
    (m.withPolicy policy).after history =
      (m.after history).withPolicy policy := by
  induction history generalizing m with
  | nil =>
      rfl
  | cons operation rest inductionHypothesis =>
      rw [after_cons, machine_apply_withPolicy, inductionHypothesis,
        after_cons]

/-- No operation changes the policy: it commutes with the change to the policy that
is there already. -/
theorem policy_apply (m : Machine) (operation : Operation) :
    (m.apply operation).machine.settings.unknown = m.settings.unknown :=
  congrArg (fun next => next.settings.unknown)
    (m.machine_apply_withPolicy m.settings.unknown operation)

theorem reply_apply_withPolicy
    (m : Machine) (policy : UnknownPolicy) {operation : Operation}
    (recognized : operation = .cycle → m.nextWord.IsKnown) :
    ((m.withPolicy policy).apply operation).reply =
      (m.apply operation).reply := by
  cases operation with
  | cycle =>
      change (m.withPolicy policy).advance.reply = m.advance.reply
      rw [advance_withPolicy_of_known policy (recognized rfl)]
  | load program =>
      simp only [apply, load]
      split <;> rfl
  | _ => rfl

/-- Two machines that differ in their policies alone still differ in nothing else
after any history, and they answer the next operation alike, unless it is a cycle
that meets an unknown word: that one is passed over under the one policy and
reported with its address under the other. -/
theorem policies_differ_in_reports_alone
    (m : Machine) (history : List Operation) (operation : Operation) :
    let lenient := (m.withPolicy .ignore).after history
    let strict := (m.withPolicy .fail).after history
    lenient.settings.unknown = .ignore ∧
      strict = lenient.withPolicy .fail ∧
      if operation = .cycle ∧ ¬lenient.nextWord.IsKnown then
        (lenient.apply operation).reply = .done ∧
          (strict.apply operation).reply =
            .refused (.unknownWord lenient.nextWord lenient.pc.toWord)
      else (strict.apply operation).reply = (lenient.apply operation).reply := by
  intro lenient strict
  have lenientIs : lenient = (m.after history).withPolicy .ignore :=
    m.after_withPolicy .ignore history
  have strictIs : strict = lenient.withPolicy .fail := by
    rw [lenientIs, withPolicy_withPolicy]
    exact m.after_withPolicy .fail history
  refine ⟨by rw [lenientIs]; rfl, strictIs, ?_⟩
  split
  · rename_i meetsUnknown
    obtain ⟨rfl, isUnknown⟩ := meetsUnknown
    have lenientKept : lenient = lenient.withPolicy .ignore := by
      rw [lenientIs, withPolicy_withPolicy]
    constructor
    · have passedOver := advance_withPolicy_of_unknown .ignore isUnknown
      rw [← lenientKept] at passedOver
      exact congrArg Outcome.reply passedOver
    · have reported := advance_withPolicy_of_unknown .fail isUnknown
      rw [strictIs]
      exact congrArg Outcome.reply reported
  · rename_i recognized
    rw [strictIs]
    apply reply_apply_withPolicy
    intro isCycle
    by_contra isUnknown
    exact recognized ⟨isCycle, isUnknown⟩

end ChipEight.Machine

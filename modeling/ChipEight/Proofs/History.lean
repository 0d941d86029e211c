import ChipEight.Machine.Operation

/-!
# Machines along a history

A history is done from the left.  These lemmas cut a history into a part that
has been done and the operation that comes next.
-/

namespace ChipEight.Machine

/-- The machine after a history. -/
def after (m : Machine) (history : List Operation) : Machine :=
  (m.run history).machine

@[simp]
theorem after_nil (m : Machine) : m.after [] = m :=
  rfl

@[simp]
theorem after_cons
    (m : Machine) (operation : Operation) (rest : List Operation) :
    m.after (operation :: rest) =
      (m.apply operation).machine.after rest :=
  rfl

theorem after_append (m : Machine) (earlier later : List Operation) :
    m.after (earlier ++ later) = (m.after earlier).after later := by
  induction earlier generalizing m with
  | nil =>
      rfl
  | cons operation rest inductionHypothesis =>
      simpa using inductionHypothesis (m.apply operation).machine

theorem messages_run_append
    (m : Machine) (earlier later : List Operation) :
    (m.run (earlier ++ later)).messages =
      (m.run earlier).messages ++ ((m.after earlier).run later).messages := by
  induction earlier generalizing m with
  | nil =>
      rfl
  | cons operation rest inductionHypothesis =>
      simp only [List.cons_append, run, inductionHypothesis, after_cons,
        List.append_assoc]

/-- The machine one operation later. -/
theorem after_take_succ
    (m : Machine) {history : List Operation} {n : Nat}
    (inRange : n < history.length) :
    m.after (history.take (n + 1)) =
      ((m.after (history.take n)).apply history[n]).machine := by
  rw [List.take_succ_eq_append_getElem inRange, after_append]
  rfl

/-! ## What the operations of a history contribute -/

/-- What operations contribute in the course of a history, each from the machine
that it finds. -/
def along {α : Type} (contribution : Machine → Operation → List α)
    (m : Machine) : List Operation → List α
  | [] => []
  | operation :: rest =>
    contribution m operation ++
      (m.apply operation).machine.along contribution rest

/-- What ties the contributions so far to the machine reached is kept by a history
if every operation keeps it. -/
theorem along_induction
    {α : Type} {contribution : Machine → Operation → List α}
    (tied : List α → Machine → Prop)
    (kept : ∀ soFar m operation, tied soFar m →
      tied (soFar ++ contribution m operation) (m.apply operation).machine)
    {soFar : List α} {m : Machine} (atFirst : tied soFar m)
    (history : List Operation) :
    tied (soFar ++ m.along contribution history) (m.after history) := by
  induction history generalizing soFar m with
  | nil =>
      simpa only [along, List.append_nil, after_nil] using atFirst
  | cons operation rest inductionHypothesis =>
      rw [along, after_cons, ← List.append_assoc]
      exact inductionHypothesis (kept soFar m operation atFirst)

theorem messages_run (m : Machine) (history : List Operation) :
    (m.run history).messages =
      m.along (fun found operation => (found.apply operation).messages)
        history := by
  induction history generalizing m with
  | nil =>
      rfl
  | cons operation rest inductionHypothesis =>
      rw [run, along, inductionHypothesis]

theorem replies_run (m : Machine) (history : List Operation) :
    (m.run history).replies =
      m.along (fun found operation => [(found.apply operation).reply])
        history := by
  induction history generalizing m with
  | nil =>
      rfl
  | cons operation rest inductionHypothesis =>
      rw [run, along, inductionHypothesis, List.singleton_append]

/-- What goes through a list part by part goes through the contributions. -/
theorem apply_along
    {α β : Type} {f : List α → List β} (nothing : f [] = [])
    (inParts : ∀ earlier later, f (earlier ++ later) = f earlier ++ f later)
    (contribution : Machine → Operation → List α) (m : Machine)
    (history : List Operation) :
    f (m.along contribution history) =
      m.along (fun found operation => f (contribution found operation))
        history := by
  induction history generalizing m with
  | nil =>
      exact nothing
  | cons operation rest inductionHypothesis =>
      rw [along, inParts, inductionHypothesis, along]

/-- Contributions that agree wherever a history can come agree along it. -/
theorem along_congr
    {α : Type} {contribution other : Machine → Operation → List α}
    (reached : Machine → Prop)
    (kept : ∀ m operation, reached m → reached (m.apply operation).machine)
    (agree : ∀ m operation, reached m →
      contribution m operation = other m operation)
    {m : Machine} (atFirst : reached m) (history : List Operation) :
    m.along contribution history = m.along other history := by
  induction history generalizing m with
  | nil =>
      rfl
  | cons operation rest inductionHypothesis =>
      rw [along, agree m operation atFirst,
        inductionHypothesis (kept m operation atFirst), along]

end ChipEight.Machine

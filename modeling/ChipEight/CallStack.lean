import ChipEight.Word

/-!
# The call stack

At most sixteen return addresses.  A push onto a full stack and a pop from an
empty one are refused.
-/

namespace ChipEight

/-- The return addresses pushed so far, the newest first. -/
structure CallStack where
  newestFirst : List Address
  bounded : newestFirst.length ≤ 16
deriving DecidableEq, Repr

namespace CallStack

/-- The number of return addresses that fit. -/
def capacity : Nat := 16

def empty : CallStack := ⟨[], by simp⟩

def depth (stack : CallStack) : Nat := stack.newestFirst.length

/-- The return addresses, the oldest first. -/
def toList (stack : CallStack) : List Address := stack.newestFirst.reverse

/-- Push a return address unless the stack is full. -/
def push? (stack : CallStack) (a : Address) : Option CallStack :=
  if h : stack.newestFirst.length < 16 then
    some ⟨a :: stack.newestFirst, h⟩
  else none

/-- Take the newest return address off unless there is none. -/
def pop? (stack : CallStack) : Option (Address × CallStack) :=
  match stack with
  | ⟨[], _⟩ => none
  | ⟨a :: rest, h⟩ => some (a, ⟨rest, Nat.le_of_succ_le h⟩)

/-! ## The view as a list -/

@[ext] theorem ext {left right : CallStack}
    (h : left.toList = right.toList) : left = right := by
  obtain ⟨l, hl⟩ := left
  obtain ⟨r, hr⟩ := right
  simp only [toList, List.reverse_inj] at h
  subst h
  rfl

@[simp] theorem toList_empty : empty.toList = [] := rfl

@[simp] theorem length_toList (stack : CallStack) :
    stack.toList.length = stack.depth := by
  simp [toList, depth]

theorem depth_le (stack : CallStack) : stack.depth ≤ capacity :=
  stack.bounded

theorem push?_eq_some_iff {stack pushed : CallStack} {a : Address} :
    stack.push? a = some pushed ↔
      stack.depth < capacity ∧ pushed.toList = stack.toList ++ [a] := by
  unfold push? depth capacity
  split
  · rename_i hroom
    simp only [Option.some.injEq, hroom, true_and]
    constructor
    · rintro rfl
      simp [toList]
    · intro h
      apply ext
      rw [h]
      simp [toList]
  · rename_i hfull
    simp [hfull]

theorem push?_eq_none_iff {stack : CallStack} {a : Address} :
    stack.push? a = none ↔ stack.depth = capacity := by
  have hbounded := stack.bounded
  unfold push? depth capacity
  split <;> simp <;> omega

theorem pop?_eq_some_iff {stack popped : CallStack} {a : Address} :
    stack.pop? = some (a, popped) ↔ stack.toList = popped.toList ++ [a] := by
  obtain ⟨frames, hframes⟩ := stack
  cases frames with
  | nil => simp [pop?, toList]
  | cons newest rest =>
    simp only [pop?, toList, Option.some.injEq, Prod.mk.injEq,
      List.reverse_cons]
    constructor
    · rintro ⟨rfl, rfl⟩
      rfl
    · intro h
      obtain ⟨hrest, hnewest⟩ := List.append_inj' h rfl
      refine ⟨by simpa using hnewest, ?_⟩
      apply ext
      simpa [toList] using hrest

theorem pop?_eq_none_iff {stack : CallStack} :
    stack.pop? = none ↔ stack.depth = 0 := by
  obtain ⟨frames, hframes⟩ := stack
  cases frames <;> simp [pop?, depth]

theorem depth_of_push?
    {stack pushed : CallStack} {a : Address}
    (isPushed : stack.push? a = some pushed) :
    pushed.depth = stack.depth + 1 := by
  have onTop : pushed.toList = stack.toList ++ [a] :=
    (push?_eq_some_iff.mp isPushed).2
  rw [← length_toList, onTop, List.length_append, length_toList]
  rfl

theorem depth_of_pop?
    {stack popped : CallStack} {a : Address}
    (isPopped : stack.pop? = some (a, popped)) :
    stack.depth = popped.depth + 1 := by
  have onTop : stack.toList = popped.toList ++ [a] :=
    pop?_eq_some_iff.mp isPopped
  rw [← length_toList, onTop, List.length_append, length_toList]
  rfl

end CallStack

end ChipEight

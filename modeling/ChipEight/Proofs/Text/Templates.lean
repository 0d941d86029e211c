import ChipEight.Journal
import ChipEight.Proofs.Text.Numerals

/-!
# Texts with places for numbers

A template is a text with places in it, to be filled with numbers.  The numbers can
be read back whenever a numeral cannot run into what comes after it: when every
place is followed by the end or by fixed text that does not begin with a digit.
Lists in brackets have any number of places, and are read with one pass over the
text.
-/

namespace ChipEight

/-- A part of a template: fixed text, or a place for a number in a base with a least
number of digits. -/
inductive TextPart
  | fixed (text : List Char)
  | place (base width : Nat)
deriving DecidableEq, Repr

abbrev Template := List TextPart

namespace Template

open Numeral

/-! ## Filling the places -/

/-- The text with numbers in its places. -/
def fill : Template → List Nat → List Char
  | [], _ => []
  | .fixed text :: parts, numbers => text ++ fill parts numbers
  | .place base width :: parts, numbers =>
    written base width (numbers.headD 0) ++ fill parts numbers.tail

def places : Template → Nat
  | [] => 0
  | .fixed _ :: parts => places parts
  | .place _ _ :: parts => places parts + 1

/-! ## Reading the numbers -/

/-- Read the numbers in the places of a text. -/
def read? : Template → List Char → Option (List Nat)
  | [], [] => some []
  | [], _ :: _ => none
  | .fixed text :: parts, cs => (cs.dropPrefix? text).bind (read? parts)
  | .place base _ :: parts, cs =>
    (readPrefix? base cs).bind fun found =>
      (read? parts found.2).map (found.1 :: ·)

/-- No numeral goes on into text that begins in this way. -/
def endsNumeral (base : Nat) : Template → Bool
  | [] => true
  | .fixed (c :: _) :: _ => !isDigit base c
  | _ => false

/-- Every place has a base for which there are digits, and its numeral ends where
the place ends. -/
def isLegible : Template → Bool
  | [] => true
  | .fixed _ :: parts => isLegible parts
  | .place base _ :: parts =>
    decide (2 ≤ base ∧ base ≤ 16) && endsNumeral base parts && isLegible parts

theorem endsNumeral_fill
    {base : Nat} {template : Template}
    (ends : template.endsNumeral base = true) (numbers : List Nat) :
    EndsNumeral base (template.fill numbers) := by
  intro c isFirst
  cases template with
  | nil =>
      cases isFirst
  | cons part parts =>
      cases part with
      | place base width =>
          cases ends
      | fixed text =>
          cases text with
          | nil =>
              cases ends
          | cons first later =>
              cases isFirst
              rwa [endsNumeral, Bool.not_eq_true'] at ends

/-- The numbers that fill the places of a legible template are read back. -/
theorem read?_fill
    {template : Template} (legible : template.isLegible = true)
    {numbers : List Nat} (filled : numbers.length = template.places) :
    template.read? (template.fill numbers) = some numbers := by
  induction template generalizing numbers with
  | nil =>
      rw [List.eq_nil_of_length_eq_zero filled]
      rfl
  | cons part parts inductionHypothesis =>
      cases part with
      | fixed text =>
          rw [fill, read?, List.dropPrefix?_append_of_beq _ (beq_self_eq_true text)]
          exact inductionHypothesis legible filled
      | place base width =>
          cases numbers with
          | nil =>
              cases filled
          | cons first others =>
              simp only [isLegible, Bool.and_eq_true, decide_eq_true_eq]
                at legible
              obtain ⟨⟨⟨atLeastTwo, atMostSixteen⟩, ends⟩, later⟩ := legible
              have filledLater : others.length = places parts :=
                Nat.succ.inj filled
              have found :=
                readPrefix?_of_spells
                  (spells_written atLeastTwo atMostSixteen width first)
                  (endsNumeral_fill ends others)
              rw [fill, read?, List.headD_cons, List.tail_cons, found,
                Option.bind_some, inductionHypothesis later filledLater]
              rfl

end Template

/-! ## Lists in brackets -/

namespace Numeral

/-- Read the items of a list up to the closing bracket, after some digits of the
first of them. -/
def readItems? (soFar : Nat) : List Char → Option (List Nat)
  | [] => none
  | c :: cs =>
    if isDigit 16 c then readItems? (16 * soFar + alphabet.idxOf c) cs
    else
      match c, cs with
      | ']', [] => some [soFar]
      | ',', ' ' :: later => (readItems? 0 later).map (soFar :: ·)
      | _, _ => none

/-- Read a list of hexadecimal numerals in brackets. -/
def readBracketed? : List Char → Option (List Nat)
  | '[' :: items =>
    if items = "]".toList then some [] else readItems? 0 items
  | _ => none

theorem readItems?_cons_of_isDigit
    {c : Char} (digit : isDigit 16 c = true) (soFar : Nat) (cs : List Char) :
    readItems? soFar (c :: cs) =
      readItems? (16 * soFar + alphabet.idxOf c) cs := by
  rw [readItems?.eq_def]
  simp only [digit, if_true]

theorem readItems?_digits
    {digits : List Char} (areDigits : ∀ c ∈ digits, isDigit 16 c = true)
    (soFar : Nat) (rest : List Char) :
    readItems? soFar (digits ++ rest) =
      readItems? (valueAfter 16 soFar digits) rest := by
  induction digits generalizing soFar with
  | nil =>
      rfl
  | cons c later inductionHypothesis =>
      have laterDigits := List.forall_mem_of_forall_mem_cons areDigits
      have firstDigit := areDigits c List.mem_cons_self
      rw [List.cons_append, readItems?_cons_of_isDigit firstDigit,
        inductionHypothesis laterDigits]
      rfl

theorem readItems?_hex (width n : Nat) (rest : List Char) :
    readItems? 0 (hex width n ++ rest) = readItems? n rest := by
  have spells := spells_hex width n
  rw [readItems?_digits spells.digits, spells.value]

theorem intercalate_cons
    (separator first : List Char) (others : List (List Char)) :
    separator.intercalate (first :: others) =
      first ++ others.flatMap (separator ++ ·) := by
  induction others generalizing first with
  | nil =>
      rw [List.intercalate_singleton, List.flatMap_nil, List.append_nil]
  | cons second others inductionHypothesis =>
      rw [List.intercalate_cons_cons, inductionHypothesis, List.flatMap_cons,
        List.append_assoc, List.append_assoc]

theorem readItems?_others (width first : Nat) (others : List Nat) :
    readItems? first
        ((others.map (hex width)).flatMap (", ".toList ++ ·) ++ "]".toList) =
      some (first :: others) := by
  induction others generalizing first with
  | nil =>
      rfl
  | cons second others inductionHypothesis =>
      have next : ∀ rest,
          readItems? first (", ".toList ++ rest) =
            (readItems? 0 rest).map (first :: ·) := fun _ => rfl
      rw [List.map_cons, List.flatMap_cons, List.append_assoc,
        List.append_assoc, next, readItems?_hex, inductionHypothesis,
        Option.map_some]

/-- However many numerals are listed in brackets, they are read back. -/
theorem readBracketed?_bracketed (width : Nat) (numbers : List Nat) :
    readBracketed? (Message.bracketed (numbers.map (hex width))) =
      some numbers := by
  cases numbers with
  | nil =>
      rfl
  | cons first others =>
      have someDigits : hex width first ≠ [] :=
        (spells_hex width first).nonempty
      have someItems : ∀ rest,
          hex width first ++ rest ++ "]".toList ≠ "]".toList := by
        intro rest none
        rw [List.append_left_eq_self] at none
        exact someDigits (List.append_eq_nil_iff.mp none).1
      rw [Message.bracketed, readBracketed?, List.map_cons, intercalate_cons,
        if_neg (someItems _), List.append_assoc, readItems?_hex,
        readItems?_others]

end Numeral

end ChipEight

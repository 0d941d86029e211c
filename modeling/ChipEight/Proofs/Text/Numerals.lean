import ChipEight.Text.Numeral
import Mathlib.Data.List.Basic

/-!
# Numerals read back

A numeral has no mark at its end: it is read as far as its digits go.  What its
digits stand for is told by their places in an alphabet, apart from the way in
which numbers are written.  A number written in some base, with zeros in front or
without, is spelled by its numeral, and so it is read back from any text that goes
on with something other than a digit.  The reader of decimal numerals accepts what
spells a number.
-/

namespace ChipEight.Numeral

/-! ## What digits stand for -/

/-- The digits up to base sixteen, each at the place that is its value. -/
def alphabet : List Char := "0123456789ABCDEF".toList

def isDigit (b : Nat) (c : Char) : Bool := decide (alphabet.idxOf c < b)

/-- The number that digits stand for if they go on after a number. -/
def valueAfter (b start : Nat) (cs : List Char) : Nat :=
  cs.foldl (fun n c => b * n + alphabet.idxOf c) start

/-- A text of digits that stand for a number, with zeros in front or without. -/
structure Spells (b : Nat) (cs : List Char) (n : Nat) : Prop where
  nonempty : cs ≠ []
  digits : ∀ c ∈ cs, isDigit b c = true
  value : valueAfter b 0 cs = n

theorem isDigit_eq_true_iff (b : Nat) (c : Char) :
    isDigit b c = true ↔ alphabet.idxOf c < b :=
  decide_eq_true_iff

theorem valueAfter_append (b start : Nat) (first second : List Char) :
    valueAfter b start (first ++ second) =
      valueAfter b (valueAfter b start first) second :=
  List.foldl_append

/-- Digits after a number shift it by their count. -/
theorem valueAfter_eq_add (b start : Nat) (cs : List Char) :
    valueAfter b start cs =
      start * Nat.pow b cs.length + valueAfter b 0 cs := by
  induction cs generalizing start with
  | nil =>
      exact (Nat.mul_one start).symm
  | cons c cs inductionHypothesis =>
      have first : ∀ before, valueAfter b before (c :: cs) =
          valueAfter b (b * before + alphabet.idxOf c) cs := fun _ => rfl
      have power : Nat.pow b (c :: cs).length = Nat.pow b cs.length * b := rfl
      rw [first, first, inductionHypothesis, inductionHypothesis (b * 0 + _),
        power, Nat.mul_zero, Nat.zero_add, Nat.add_mul, Nat.add_assoc,
        Nat.mul_comm b start, Nat.mul_assoc, Nat.mul_comm b]

theorem valueAfter_zeros (b count : Nat) :
    valueAfter b 0 (List.replicate count '0') = 0 := by
  induction count with
  | zero =>
      rfl
  | succ count inductionHypothesis =>
      have zeroFirst : valueAfter b 0 ['0'] = 0 := Nat.mul_zero b
      rw [List.replicate_succ, ← List.singleton_append, valueAfter_append,
        zeroFirst, inductionHypothesis]

/-- Zeros in front do not change what a numeral spells. -/
theorem Spells.leftpad
    {b n : Nat} {cs : List Char} (spells : Spells b cs n)
    (hasZero : isDigit b '0' = true) (width : Nat) :
    Spells b (cs.leftpad width '0') n := by
  constructor
  · exact List.append_ne_nil_of_right_ne_nil _ spells.nonempty
  · intro c among
    rcases List.mem_append.mp among with isZero | inside
    · rw [List.eq_of_mem_replicate isZero]
      exact hasZero
    · exact spells.digits c inside
  · rw [List.leftpad, valueAfter_append, valueAfter_zeros, spells.value]

/-! ## Numbers written -/

theorem idxOf_digitChar {d : Nat} (small : d < 16) :
    alphabet.idxOf (digitChar d) = d := by
  revert d
  decide

theorem isDigit_digitChar
    {b d : Nat} (atMostSixteen : b ≤ 16) (isBelow : d < b) :
    isDigit b (digitChar d) = true := by
  rw [isDigit_eq_true_iff,
    idxOf_digitChar (Nat.lt_of_lt_of_le isBelow atMostSixteen)]
  exact isBelow

theorem valueAfter_digitChar
    {d : Nat} (small : d < 16) (b start : Nat) :
    valueAfter b start [digitChar d] = b * start + d := by
  change b * start + alphabet.idxOf (digitChar d) = _
  rw [idxOf_digitChar small]

section Written

variable {b : Nat} (atLeastTwo : 2 ≤ b)

include atLeastTwo

theorem spells_digits (atMostSixteen : b ≤ 16) (n : Nat) :
    Spells b ((digits b n).map digitChar) n := by
  induction n using digits.induct b with
  | case1 n one =>
      have isBelow : n < b := by omega
      have small : n < 16 := Nat.lt_of_lt_of_le isBelow atMostSixteen
      rw [digits_of_lt isBelow, List.map_singleton]
      refine ⟨List.cons_ne_nil _ _, ?_, ?_⟩
      · intro c among
        rw [List.mem_singleton.mp among]
        exact isDigit_digitChar atMostSixteen isBelow
      · rw [valueAfter_digitChar small, Nat.mul_zero, Nat.zero_add]
  | case2 n more inductionHypothesis =>
      have isLarge : b ≤ n := by omega
      have isBelow : n % b < b :=
        Nat.mod_lt n (Nat.lt_of_lt_of_le Nat.two_pos atLeastTwo)
      have small : n % b < 16 := Nat.lt_of_lt_of_le isBelow atMostSixteen
      rw [digits_of_le atLeastTwo isLarge, List.map_append,
        List.map_singleton]
      refine ⟨List.append_ne_nil_of_left_ne_nil
        inductionHypothesis.nonempty _, ?_, ?_⟩
      · intro c among
        rcases List.mem_append.mp among with earlier | last
        · exact inductionHypothesis.digits c earlier
        · rw [List.mem_singleton.mp last]
          exact isDigit_digitChar atMostSixteen isBelow
      · rw [valueAfter_append, inductionHypothesis.value,
          valueAfter_digitChar small]
        exact Nat.div_add_mod n b

/-- A number is below a power of the base exactly if it has that many digits or
less. -/
theorem length_digits_le_iff (n k : Nat) :
    (digits b n).length ≤ k + 1 ↔ n < Nat.pow b (k + 1) := by
  induction k generalizing n with
  | zero =>
      have one : Nat.pow b 1 = b := Nat.one_mul b
      rw [one]
      by_cases isBelow : n < b
      · rw [digits_of_lt isBelow]
        simp [isBelow]
      · have first := List.length_pos_of_ne_nil (digits_ne_nil b (n / b))
        rw [digits_of_le atLeastTwo (Nat.not_lt.mp isBelow),
          List.length_append, List.length_singleton]
        omega
  | succ k inductionHypothesis =>
      have next : Nat.pow b (k + 2) = Nat.pow b (k + 1) * b := rfl
      have positive : 0 < b := by omega
      rw [next, ← Nat.div_lt_iff_lt_mul positive, ← inductionHypothesis]
      by_cases isBelow : n < b
      · rw [digits_of_lt isBelow, Nat.div_eq_of_lt isBelow,
          digits_of_lt positive]
        simp
      · rw [digits_of_le atLeastTwo (Nat.not_lt.mp isBelow),
          List.length_append, List.length_singleton]
        omega

end Written

/-- A number in a base, with a least number of digits. -/
def written (b width n : Nat) : List Char :=
  ((digits b n).map digitChar).leftpad width '0'

theorem spells_written
    {b : Nat} (atLeastTwo : 2 ≤ b) (atMostSixteen : b ≤ 16)
    (width n : Nat) : Spells b (written b width n) n := by
  apply (spells_digits atLeastTwo atMostSixteen n).leftpad
  have positive : 0 < b := Nat.lt_of_lt_of_le Nat.two_pos atLeastTwo
  exact isDigit_digitChar atMostSixteen positive

theorem hex_eq_written (width n : Nat) : hex width n = written 16 width n :=
  rfl

theorem decimal_eq_written (n : Nat) : decimal n = written 10 0 n := by
  rw [written, List.leftpad, Nat.zero_sub]
  rfl

theorem spells_hex (width n : Nat) : Spells 16 (hex width n) n :=
  spells_written (by decide) (by decide) width n

theorem length_hex (width n : Nat) :
    (hex width n).length = max width (digits 16 n).length := by
  rw [hex, List.length_leftpad, List.length_map]

/-- A sixteen-bit number has the least number of digits and, from three on, a fourth
one only where it needs it. -/
theorem length_hex_of_bits
    {width n : Nat} (atLeastThree : 3 ≤ width) (small : n < 65536) :
    (hex width n).length = if n < 4096 then width else max width 4 := by
  have three : (digits 16 n).length ≤ 3 ↔ n < 4096 :=
    length_digits_le_iff (by decide) n 2
  have four : (digits 16 n).length ≤ 4 ↔ n < 65536 :=
    length_digits_le_iff (by decide) n 3
  rw [length_hex]
  split <;> omega

/-! ## Reading -/

/-- A text that does not begin with a digit. -/
def EndsNumeral (b : Nat) (cs : List Char) : Prop :=
  ∀ c ∈ cs.head?, isDigit b c = false

/-- Read digits as far as they go, at least one of them. -/
def readPrefix? (b : Nat) (cs : List Char) : Option (Nat × List Char) :=
  let digits := cs.takeWhile (isDigit b)
  if digits = [] then none
  else some (valueAfter b 0 digits, cs.dropWhile (isDigit b))

/-- A run of digits ends where no digit follows. -/
theorem span_digits
    {b : Nat} {cs rest : List Char} (digits : ∀ c ∈ cs, isDigit b c = true)
    (ends : EndsNumeral b rest) :
    (cs ++ rest).takeWhile (isDigit b) = cs ∧
      (cs ++ rest).dropWhile (isDigit b) = rest := by
  have stops :
      rest.takeWhile (isDigit b) = [] ∧ rest.dropWhile (isDigit b) = rest := by
    cases rest with
    | nil =>
        exact ⟨rfl, rfl⟩
    | cons c later =>
        have noDigit : isDigit b c = false := ends c rfl
        simp [noDigit]
  rw [List.takeWhile_append_of_pos digits, List.dropWhile_append_of_pos digits,
    stops.1, stops.2, List.append_nil]
  exact ⟨rfl, rfl⟩

theorem readPrefix?_of_spells
    {b n : Nat} {cs rest : List Char} (spells : Spells b cs n)
    (ends : EndsNumeral b rest) : readPrefix? b (cs ++ rest) = some (n, rest) := by
  obtain ⟨digits, later⟩ := span_digits spells.digits ends
  rw [readPrefix?, digits, later, if_neg spells.nonempty, spells.value]

/-! ## Decimal numerals -/

theorem exists_digitChar {c : Char} (inside : '0' ≤ c ∧ c ≤ '9') :
    ∃ d < 10, c = digitChar d ∧ c.toNat - 48 = d := by
  obtain ⟨lower, upper⟩ := inside
  have atLeast : 48 ≤ c.toNat := lower
  have atMost : c.toNat ≤ 57 := upper
  have small : c.toNat - 48 < 10 := by
    omega
  have split : 48 + (c.toNat - 48) = c.toNat := by
    omega
  refine ⟨c.toNat - 48, small, ?_, rfl⟩
  rw [digitChar, if_pos small, split, Char.ofNat_toNat]

theorem isDigit_ten_iff (c : Char) :
    isDigit 10 c = true ↔ '0' ≤ c ∧ c ≤ '9' := by
  constructor
  · intro isDigit
    have small := (isDigit_eq_true_iff 10 c).mp isDigit
    have there : alphabet.idxOf c < alphabet.length :=
      Nat.lt_trans small (by decide)
    have same : alphabet.get ⟨alphabet.idxOf c, there⟩ = c :=
      List.getElem_idxOf there
    have every : ∀ place : Fin alphabet.length, place.val < 10 →
        '0' ≤ alphabet.get place ∧ alphabet.get place ≤ '9' := by
      decide
    rw [← same]
    exact every _ small
  · intro inside
    obtain ⟨d, small, rfl, _⟩ := exists_digitChar inside
    exact isDigit_digitChar (by decide) small

theorem isDigit_ten : isDigit 10 = Char.isDigit := by
  funext c
  rw [Bool.eq_iff_iff, isDigit_ten_iff, Char.isDigit, Bool.and_eq_true,
    decide_eq_true_iff, decide_eq_true_iff]
  rfl

theorem digitValue?_of_isDigit {c : Char} (isDigit : isDigit 10 c = true) :
    digitValue? c = some (alphabet.idxOf c) := by
  have inside := (isDigit_ten_iff c).mp isDigit
  obtain ⟨d, small, same, value⟩ := exists_digitChar inside
  rw [digitValue?, if_pos inside, value, same,
    idxOf_digitChar (Nat.lt_trans small (by decide))]

theorem digitValue?_of_not_isDigit {c : Char} (other : isDigit 10 c = false) :
    digitValue? c = none := by
  rw [digitValue?, if_neg]
  intro inside
  rw [(isDigit_ten_iff c).mpr inside] at other
  cases other

theorem valueFrom?_eq_some_iff (start n : Nat) (cs : List Char) :
    valueFrom? start cs = some n ↔
      (∀ c ∈ cs, isDigit 10 c = true) ∧ valueAfter 10 start cs = n := by
  induction cs generalizing start with
  | nil =>
      simp [valueFrom?, valueAfter]
  | cons c cs inductionHypothesis =>
      rw [valueFrom?, List.forall_mem_cons]
      cases first : isDigit 10 c with
      | false =>
          rw [digitValue?_of_not_isDigit first]
          simp
      | true =>
          rw [digitValue?_of_isDigit first]
          simp only [inductionHypothesis, true_and]
          rfl

/-- The reader of decimal numerals reads what its digits stand for. -/
theorem readDecimal?_eq_some_iff (cs : List Char) (n : Nat) :
    readDecimal? cs = some n ↔ Spells 10 cs n := by
  cases cs with
  | nil =>
      have refused : readDecimal? [] = none := rfl
      rw [refused]
      refine iff_of_false nofun fun spells => spells.nonempty rfl
  | cons c cs =>
      have reads : readDecimal? (c :: cs) = valueFrom? 0 (c :: cs) := rfl
      rw [reads, valueFrom?_eq_some_iff]
      constructor
      · rintro ⟨digits, value⟩
        exact ⟨List.cons_ne_nil _ _, digits, value⟩
      · intro spells
        exact ⟨spells.digits, spells.value⟩

/-! ## Bits -/

/-- A number as bits, if there are enough of them. -/
def bits? (width n : Nat) : Option (BitVec width) :=
  let bits := BitVec.ofNat width n
  if bits.toNat = n then some bits else none

theorem bits?_toNat {width : Nat} (bits : BitVec width) :
    bits? width bits.toNat = some bits := by
  rw [bits?, BitVec.ofNat_toNat, BitVec.setWidth_eq, if_pos rfl]

end ChipEight.Numeral

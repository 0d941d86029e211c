/-!
# Numerals

Numbers written in positional notation, as lists of characters: decimal numerals
without padding, and upper-case hexadecimal numerals of a least width.  A reader
for decimal numerals stands beside the writer.
-/

namespace ChipEight.Numeral

/-! ## Digits -/

/-- The digits of `n` in base `b`, the most significant first.  Zero has the
single digit zero, so no numeral is empty; a base below two has one digit only. -/
def digits (b n : Nat) : List Nat :=
  if n < b ∨ b < 2 then [n]
  else digits b (n / b) ++ [n % b]
termination_by n
decreasing_by
  have hbase : 2 ≤ b := by omega
  have hpositive : 0 < n := by omega
  exact Nat.div_lt_self hpositive hbase

/-- The character of a digit below thirty-six; letters are upper case. -/
def digitChar (d : Nat) : Char :=
  if d < 10 then Char.ofNat (48 + d) else Char.ofNat (55 + d)

theorem digits_of_lt {b n : Nat} (h : n < b) : digits b n = [n] := by
  rw [digits, if_pos (Or.inl h)]

theorem digits_of_le {b n : Nat} (hbase : 2 ≤ b) (h : b ≤ n) :
    digits b n = digits b (n / b) ++ [n % b] := by
  have hlarge : ¬(n < b ∨ b < 2) := by omega
  rw [digits, if_neg hlarge]

theorem digits_ne_nil (b n : Nat) : digits b n ≠ [] := by
  rw [digits]
  split <;> simp

/-! ## Writing -/

/-- A number in base ten, without leading zeros. -/
def decimal (n : Nat) : List Char :=
  (digits 10 n).map digitChar

/-- A number in base sixteen with at least `width` digits, zeros in front. -/
def hex (width n : Nat) : List Char :=
  ((digits 16 n).map digitChar).leftpad width '0'

/-! ## Reading -/

/-- The value of one decimal digit. -/
def digitValue? (c : Char) : Option Nat :=
  if '0' ≤ c ∧ c ≤ '9' then some (c.toNat - 48) else none

/-- The value of a run of decimal digits, read from the left after `start`. -/
def valueFrom? (start : Nat) : List Char → Option Nat
  | [] => some start
  | c :: cs =>
    match digitValue? c with
    | some d => valueFrom? (10 * start + d) cs
    | none => none

/-- Read a decimal numeral: one digit or more and nothing else. -/
def readDecimal? : List Char → Option Nat
  | [] => none
  | cs => valueFrom? 0 cs

end ChipEight.Numeral

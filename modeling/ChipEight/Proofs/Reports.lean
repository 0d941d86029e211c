import ChipEight.Proofs.Text.Templates

/-!
# Reports told apart

The report of a fault is one of four texts with places for its numbers.  The four
begin with different letters, and each can be read back, so a report tells which
fault it is about and all that there is to know of it.
-/

namespace ChipEight

namespace Fault

/-! ## Kinds of faults -/

inductive Kind
  | programTooLarge
  | stackOverflow
  | stackUnderflow
  | unknownWord
deriving DecidableEq, Repr

/-- The report of a kind of fault, with places for what it tells. -/
def Kind.template : Kind → Template
  | .programTooLarge =>
    [.fixed "program is ".toList, .place 10 0,
      .fixed " bytes but only ".toList, .place 10 0,
      .fixed " bytes of program memory exist".toList]
  | .stackOverflow =>
    [.fixed "call stack overflow at ".toList, .fixed "0x".toList, .place 16 3]
  | .stackUnderflow =>
    [.fixed "return with an empty call stack at ".toList, .fixed "0x".toList,
      .place 16 3]
  | .unknownWord =>
    [.fixed "unrecognized opcode ".toList, .place 16 4, .fixed " at ".toList,
      .fixed "0x".toList, .place 16 3]

/-- The kind of fault whose report begins with a letter. -/
def Kind.ofInitial? : Char → Option Kind
  | 'p' => some .programTooLarge
  | 'c' => some .stackOverflow
  | 'r' => some .stackUnderflow
  | 'u' => some .unknownWord
  | _ => none

/-- The fault of a kind that tells some numbers. -/
def Kind.fault? : Kind → List Nat → Option Fault
  | .programTooLarge, [size, limit] => some (.programTooLarge size limit)
  | .stackOverflow, [pc] => (Numeral.bits? 16 pc).map .stackOverflow
  | .stackUnderflow, [pc] => (Numeral.bits? 16 pc).map .stackUnderflow
  | .unknownWord, [word, pc] =>
    (Numeral.bits? 16 word).bind fun word =>
      (Numeral.bits? 16 pc).map (.unknownWord word)
  | _, _ => none

def kind : Fault → Kind
  | programTooLarge _ _ => .programTooLarge
  | stackOverflow _ => .stackOverflow
  | stackUnderflow _ => .stackUnderflow
  | unknownWord _ _ => .unknownWord

/-- What a report tells, in the order in which it is told. -/
def numbers : Fault → List Nat
  | programTooLarge size limit => [size, limit]
  | stackOverflow pc => [pc.toNat]
  | stackUnderflow pc => [pc.toNat]
  | unknownWord word pc => [word.toNat, pc.toNat]

theorem fault?_kind (fault : Fault) :
    fault.kind.fault? fault.numbers = some fault := by
  cases fault <;>
    simp only [kind, numbers, Kind.fault?, Numeral.bits?_toNat,
      Option.bind_some, Option.map_some]

/-! ## Reading a report -/

/-- The report of a fault fills the places of its template. -/
theorem chars_eq_fill (fault : Fault) :
    fault.chars = fault.kind.template.fill fault.numbers := by
  cases fault with
  | programTooLarge size limit =>
      have report :
          (programTooLarge size limit).chars =
            "program is ".toList ++ Numeral.decimal size ++
              " bytes but only ".toList ++ Numeral.decimal limit ++
              " bytes of program memory exist".toList := rfl
      rw [report, Numeral.decimal_eq_written, Numeral.decimal_eq_written]
      simp only [kind, numbers, Kind.template, Template.fill, List.headD_cons,
        List.tail_cons, List.append_assoc, List.append_nil]
  | stackOverflow pc | stackUnderflow pc =>
      simp only [kind, numbers, Kind.template, Template.fill, List.headD_cons,
        List.append_nil]
      rfl
  | unknownWord word pc =>
      have report :
          (unknownWord word pc).chars =
            "unrecognized opcode ".toList ++ Numeral.hex 4 word.toNat ++
              " at ".toList ++ ("0x".toList ++ Numeral.hex 3 pc.toNat) := rfl
      rw [report, Numeral.hex_eq_written, Numeral.hex_eq_written]
      simp only [kind, numbers, Kind.template, Template.fill, List.headD_cons,
        List.tail_cons, List.append_assoc, List.append_nil]

/-- Read the report of a fault. -/
def ofText? (text : String) : Option Fault := do
  let kind ← text.toList.head?.bind Kind.ofInitial?
  let numbers ← kind.template.read? text.toList
  kind.fault? numbers

theorem ofInitial?_chars (fault : Fault) :
    fault.chars.head?.bind Kind.ofInitial? = some fault.kind := by
  cases fault <;> rfl

theorem read?_chars (fault : Fault) :
    fault.kind.template.read? fault.chars = some fault.numbers := by
  rw [chars_eq_fill]
  apply Template.read?_fill <;> cases fault <;> rfl

theorem ofText?_text (fault : Fault) : ofText? fault.text = some fault := by
  have sameChars : fault.text.toList = fault.chars := String.toList_ofList
  rw [ofText?, sameChars, ofInitial?_chars]
  change (fault.kind.template.read? fault.chars).bind fault.kind.fault? = _
  rw [read?_chars, Option.bind_some, fault?_kind]

/-! ## Addresses and words -/

/-- The address that a report names. -/
def pc? : Fault → Option Word
  | programTooLarge _ _ => none
  | stackOverflow pc => some pc
  | stackUnderflow pc => some pc
  | unknownWord _ pc => some pc

/-- An address stands at the end of a report, with three digits or, if it has more,
with four. -/
theorem exists_address_digits
    {fault : Fault} {pc : Word} (names : fault.pc? = some pc) :
    ∃ start digits,
      fault.text.toList = start ++ "0x".toList ++ digits ∧
        Numeral.Spells 16 digits pc.toNat ∧
        digits.length = if pc.toNat < 0x1000 then 3 else 4 := by
  have atEnd : ∃ start, fault.chars = start ++ addressChars pc := by
    cases fault with
    | programTooLarge size limit =>
        cases names
    | stackOverflow pc | stackUnderflow pc | unknownWord word pc =>
        cases names
        exact ⟨_, rfl⟩
  obtain ⟨start, told⟩ := atEnd
  refine ⟨start, Numeral.hex 3 pc.toNat, ?_, Numeral.spells_hex 3 pc.toNat,
    Numeral.length_hex_of_bits (Nat.le_refl 3) pc.isLt⟩
  rw [text, String.toList_ofList, told, addressChars, List.append_assoc]

/-- A word stands in a report with four digits. -/
theorem exists_word_digits (word pc : Word) :
    ∃ digits rest,
      (unknownWord word pc).text.toList =
          "unrecognized opcode ".toList ++ digits ++ " at 0x".toList ++ rest ∧
        Numeral.Spells 16 digits word.toNat ∧ digits.length = 4 := by
  refine ⟨Numeral.hex 4 word.toNat, Numeral.hex 3 pc.toNat, ?_,
    Numeral.spells_hex 4 word.toNat, ?_⟩
  · have mark : " at ".toList ++ "0x".toList = " at 0x".toList := rfl
    rw [text, String.toList_ofList, ← mark, ← List.append_assoc,
      List.append_assoc]
    rfl
  · rw [Numeral.length_hex_of_bits (by decide) word.isLt]
    exact ite_self 4

/-! ## The law of reports -/

/-- A report tells which fault it is about: the kind of the fault and every number
in it are read from the text, and so faults with one report are one fault.
Addresses stand in it with a mark and three upper-case digits, four from 0x1000 on,
and words with four digits always. -/
theorem report_determines_fault :
    (∀ fault : Fault, ofText? fault.text = some fault) ∧
    (∀ fault other : Fault, fault.text = other.text → fault = other) ∧
    (∀ (fault : Fault) (pc : Word), fault.pc? = some pc →
      ∃ start digits,
        fault.text.toList = start ++ "0x".toList ++ digits ∧
          Numeral.Spells 16 digits pc.toNat ∧
          digits.length = if pc.toNat < 0x1000 then 3 else 4) ∧
    ∀ word pc : Word, ∃ digits rest,
      (unknownWord word pc).text.toList =
          "unrecognized opcode ".toList ++ digits ++ " at 0x".toList ++ rest ∧
        Numeral.Spells 16 digits word.toNat ∧ digits.length = 4 := by
  refine ⟨ofText?_text, ?_, fun _ _ => exists_address_digits,
    exists_word_digits⟩
  intro fault other sameText
  have read := ofText?_text fault
  rw [sameText, ofText?_text] at read
  exact (Option.some.inj read).symm

end Fault

end ChipEight

import ChipEight.CommandLine
import ChipEight.Proofs.Arguments.Spellings
import ChipEight.Proofs.Volumes

/-!
# Values of options

Every option has values of its own, and a value has texts.  A text of a value is
read as this value, begins like no option, and can follow a letter directly.  When
values are given for different options, every option has its value in the end, or
the standard one.
-/

namespace ChipEight.CommandLine

open Numeral
open Arguments (IsPlain)

/-! ## Values and their texts -/

/-- The text of a natural number: a decimal numeral, after a plus or without. -/
inductive SpellsNatural : List Char → Nat → Prop
  | intro {sign digits : List Char} {n : Nat}
      (hasSign : Sign sign false) (spells : Spells 10 digits n) :
      SpellsNatural (sign ++ digits) n

/-- The texts of a value of an option.  That of a volume must not begin like an
option. -/
inductive Setting.Written : (setting : Setting) → setting.Value → List Char → Prop
  | scale {n : Nat} {text : List Char}
      (least : 1 ≤ n) (greatest : n ≤ 64) (spells : SpellsNatural text n) :
      Written .scale n text
  | volume {x : Binary32} {text : List Char}
      (accepted : Volume.read (String.ofList text) = .ok x)
      (plain : text.head? ≠ some '-') :
      Written .volume x text
  | cyclesPerFrame {n : Nat} {text : List Char}
      (greatest : n ≤ 0xFFFFFFFF) (spells : SpellsNatural text n) :
      Written .cyclesPerFrame n text
  | ignore : Written .unknownOpcode UnknownPolicy.ignore "ignore".toList
  | fail : Written .unknownOpcode UnknownPolicy.fail "fail".toList
  | seed {n : UInt64} {text : List Char}
      (spells : SpellsNatural text n.toNat) :
      Written .seed n text

theorem SpellsNatural.isPlain
    {text : List Char} {n : Nat} (spells : SpellsNatural text n) :
    IsPlain text := by
  obtain ⟨hasSign, spells⟩ := spells
  cases hasSign with
  | plus =>
      exact ⟨'+', _, rfl, by decide, by decide⟩
  | absent =>
      obtain ⟨d, ds, begins⟩ := List.exists_cons_of_ne_nil spells.nonempty
      have digit := spells.digits d (by simp [begins])
      refine ⟨d, ds, begins, (ne_sign_of_isDigit digit).1, ?_⟩
      intro isEquals
      rw [isEquals] at digit
      exact absurd digit (by decide)

/-- What is read as a volume begins with a sign, a point or a digit. -/
theorem isPlain_of_accepted
    {text : List Char} {x : Binary32}
    (accepted : Volume.read (String.ofList text) = .ok x)
    (plain : text.head? ≠ some '-') : IsPlain text := by
  obtain ⟨_, _, decimal, -⟩ :=
    (Volume.read_eq_ok_iff_isNearest _ _).mp accepted
  rw [String.toList_ofList] at decimal
  obtain ⟨d, ds, begins, first⟩ := decimal.exists_first
  refine ⟨d, ds, begins, ?_, ?_⟩
  · simpa [begins] using plain
  · intro isEquals
    rw [isEquals] at first
    exact absurd first (by decide)

namespace Setting.Written

theorem isPlain
    {setting : Setting} {value : setting.Value} {text : List Char}
    (written : setting.Written value text) : IsPlain text := by
  cases written with
  | scale _ _ spells =>
      exact spells.isPlain
  | volume accepted plain =>
      exact isPlain_of_accepted accepted plain
  | cyclesPerFrame _ spells =>
      exact spells.isPlain
  | ignore =>
      exact ⟨'i', _, rfl, by decide, by decide⟩
  | fail =>
      exact ⟨'f', _, rfl, by decide, by decide⟩
  | seed spells =>
      exact spells.isPlain

end Setting.Written

/-! ## Reading values -/

theorem readBetween?_of_spells
    {least greatest n : Nat} {text : List Char}
    (spells : SpellsNatural text n) (inRange : least ≤ n ∧ n ≤ greatest) :
    readBetween? least greatest text = some n := by
  obtain ⟨hasSign, spells⟩ := spells
  have reads :=
    (readInteger?_eq_some_iff _ _).mpr (SpellsInteger.intro hasSign spells)
  have bounds : (least : Int) ≤ n ∧ (n : Int) ≤ greatest := by
    omega
  rw [readBetween?, reads]
  simp only [Bool.false_eq_true, if_false, if_pos bounds, Int.toNat_natCast]

theorem readSeed?_of_spells
    {n : UInt64} {text : List Char} (spells : SpellsNatural text n.toNat) :
    readSeed? text = some n := by
  obtain ⟨hasSign, spells⟩ := spells
  have reads := (readDecimal?_eq_some_iff _ _).mpr spells
  have small : n.toNat < UInt64.size := n.toNat_lt_size
  have same : UInt64.ofNat n.toNat = n := UInt64.ofNat_toNat
  cases hasSign with
  | plus =>
      simp only [readSeed?, List.cons_append, List.nil_append, reads,
        if_pos small, same]
  | absent =>
      obtain ⟨d, ds, begins, -, notPlus⟩ := exists_digit_of_spells spells
      rw [List.nil_append, readSeed?]
      · simp only [reads, if_pos small, same]
      · intro digits first
        rw [begins] at first
        exact notPlus (List.cons.inj first).1

/-- A text of a value is read as this value. -/
theorem Setting.readValue_of_written
    {setting : Setting} {value : setting.Value} {text : List Char}
    (written : setting.Written value text) :
    setting.readValue text = .ok value := by
  cases written with
  | scale least greatest spells =>
      have reads := readBetween?_of_spells spells ⟨least, greatest⟩
      simp only [readValue, reads]
  | volume accepted _ =>
      simp only [readValue, accepted]
  | cyclesPerFrame greatest spells =>
      have reads := readBetween?_of_spells spells ⟨Nat.zero_le _, greatest⟩
      simp only [readValue, reads]
  | ignore =>
      decide
  | fail =>
      decide
  | seed spells =>
      simp only [readValue, readSeed?_of_spells spells]

/-! ## Values in the end -/

/-- The value that an option has in the end. -/
def Choices.value? (choices : Choices) :
    (setting : Setting) → Option setting.Value
  | .scale => some choices.scale
  | .volume => some choices.volume
  | .cyclesPerFrame => some choices.cyclesPerFrame
  | .unknownOpcode => some choices.unknown
  | .seed => choices.seed

/-- The value of an option that is left out. -/
def Setting.standard? : (setting : Setting) → Option setting.Value
  | .scale => some (10 : Nat)
  | .volume => some Volume.standard
  | .cyclesPerFrame => some (10 : Nat)
  | .unknownOpcode => some UnknownPolicy.ignore
  | .seed => none

namespace Choices

theorem value?_set_self
    (choices : Choices) {setting : Setting} (value : setting.Value) :
    (choices.set ⟨setting, value⟩).value? setting = some value := by
  cases setting <;> rfl

theorem value?_set_of_ne
    (choices : Choices) {value : Sigma Setting.Value} {setting : Setting}
    (other : setting ≠ value.1) :
    (choices.set value).value? setting = choices.value? setting := by
  obtain ⟨changed, value⟩ := value
  cases changed <;> cases setting <;> first | rfl | exact absurd rfl other

theorem program_set (choices : Choices) (value : Sigma Setting.Value) :
    (choices.set value).program = choices.program := by
  obtain ⟨changed, value⟩ := value
  cases changed <;> rfl

theorem program_foldl_set
    (choices : Choices) (values : List (Sigma Setting.Value)) :
    (values.foldl set choices).program = choices.program := by
  induction values generalizing choices with
  | nil =>
      rfl
  | cons value values ih =>
      rw [List.foldl_cons, ih, program_set]

theorem value?_foldl_set
    (choices : Choices) {values : List (Sigma Setting.Value)}
    (distinct : values.NodupKeys) (setting : Setting) :
    (values.foldl set choices).value? setting =
      (values.dlookup setting).or (choices.value? setting) := by
  induction values generalizing choices with
  | nil =>
      rfl
  | cons value values ih =>
      obtain ⟨changed, value⟩ := value
      obtain ⟨isNew, distinctRest⟩ := List.nodupKeys_cons.mp distinct
      rw [List.foldl_cons, ih _ distinctRest]
      by_cases same : setting = changed
      · subst same
        rw [List.dlookup_cons_eq, List.dlookup_eq_none.mpr isNew,
          value?_set_self]
        rfl
      · rw [List.dlookup_cons_ne _ _ same, value?_set_of_ne _ same]

/-- Every option has the value that was given for it, or else the standard one. -/
theorem value?_ofReading
    {reading : Arguments.Reading Setting.Value}
    (distinct : reading.values.NodupKeys) (setting : Setting) :
    (ofReading reading).value? setting =
      (reading.values.dlookup setting).or setting.standard? := by
  have start :
      ({ program := reading.program } : Choices).value? setting =
        setting.standard? := by
    cases setting <;> rfl
  rw [ofReading, value?_foldl_set _ distinct, start]

end Choices

end ChipEight.CommandLine

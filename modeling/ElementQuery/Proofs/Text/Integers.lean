/-
This file says which texts are numerals, decimal or hexadecimal, and which are integers written in decimal
digits, and that these are the ones that are read as natural numbers up to a limit and as integers of a
number of bits.
-/

import ElementQuery.Proofs.Text.Search
import ElementQuery.Text.Integer
import Mathlib.Algebra.Group.Int.Defs
import Mathlib.Algebra.Group.Nat.Defs

namespace ElementQuery.Text

/-- A numeral is a run of digits, and denotes a natural number in base ten. -/
structure Numeral (text : List Char) (value : Nat) : Prop where
  nonempty : text ≠ []
  digits : ∀ c ∈ text, c.isDigit = true
  value_eq : value = Nat.ofDigitChars 10 text 0

/-- The hexadecimal digits in order. Those that are letters may also be written as capitals. -/
def hexDigits : List Char := "0123456789abcdef".toList

/-- A hexadecimal numeral is a run of hexadecimal digits, and denotes a natural number in base sixteen. -/
structure HexNumeral (text : List Char) (value : Nat) : Prop where
  nonempty : text ≠ []
  digits : ∀ c ∈ text, c.toLower ∈ hexDigits
  value_eq : value = text.foldl (fun total c => 16 * total + hexDigits.idxOf c.toLower) 0

/-- An integer is written as a numeral, perhaps with one sign before it. -/
inductive Signed : List Char → Int → Prop
  | bare {digits : List Char} {value : Nat} (numeral : Numeral digits value) : Signed digits value
  | plus {digits : List Char} {value : Nat} (numeral : Numeral digits value) :
      Signed ('+' :: digits) value
  | minus {digits : List Char} {value : Nat} (numeral : Numeral digits value) :
      Signed ('-' :: digits) (-value)

/-- An integer of 32 bits. -/
def FitsWord (value : Int) : Prop := -2 ^ 31 ≤ value ∧ value < 2 ^ 31

theorem FitsWord.natAbs_le {value : Int} (fits : FitsWord value) : value.natAbs ≤ 2 ^ 31 := by
  have low := fits.1
  have high := fits.2
  omega

variable {text : List Char} {value : Int}

theorem digitValue?_eq (c : Char) :
    digitValue? 10 c = if c.isDigit then some (c.toNat - '0'.toNat) else none := by
  unfold digitValue?
  split
  · rename_i digit
    simp only [Char.isDigit, Bool.and_eq_true, decide_eq_true_eq, ge_iff_le,
      UInt32.le_iff_toNat_le] at digit
    have last : c.toNat - '0'.toNat < 10 := by
      have nine : c.toNat ≤ 57 := digit.2
      show c.toNat - 48 < 10
      omega
    exact Option.filter_eq_some_iff.2 ⟨rfl, decide_eq_true last⟩
  · -- the letters stand for digits above nine
    split
    · exact Option.filter_eq_none_iff.2 (by simp)
    · split
      · exact Option.filter_eq_none_iff.2 (by simp)
      · rfl

theorem digitValue?_hex_ascii : ∀ n < 128, digitValue? 16 (Char.ofNat n) =
    if (Char.ofNat n).toLower ∈ hexDigits then some (hexDigits.idxOf (Char.ofNat n).toLower)
    else none := by
  decide +kernel

theorem toNat_lt_of_mem_hexDigits : ∀ c ∈ hexDigits, c.toNat < 128 :=
  List.all_iff_forall_prop.1 (by decide)

/-- In base sixteen, the value of a digit is its place among the hexadecimal digits. -/
theorem digitValue?_hex (c : Char) : digitValue? 16 c =
    if c.toLower ∈ hexDigits then some (hexDigits.idxOf c.toLower) else none := by
  by_cases ascii : c.toNat < 128
  · exact forall_ascii digitValue?_hex_ascii ascii
  · -- beyond ASCII there are no digits, and no letters that have small ones
    have small : c.toLower = c := by
      apply toLower_of_isUpper_eq_false
      rw [← Bool.not_eq_true]
      intro capital
      exact ascii (toNat_lt_of_isUpper capital)
    have strange : c ∉ hexDigits := fun member => ascii (toNat_lt_of_mem_hexDigits c member)
    have noDigit : c.isDigit = false := by
      rw [← Bool.not_eq_true]
      intro digit
      exact ascii (toNat_lt_of_isDigit digit)
    have noLetter : ∀ last : Char, last.toNat < 128 → ¬ c ≤ last := by
      intro last bound within
      have order : c.toNat ≤ last.toNat := within
      omega
    rw [small, if_neg strange, digitValue?]
    simp [noDigit, noLetter 'z' (by decide), noLetter 'Z' (by decide)]

section Digits

variable {base value : Nat} {isDigit : Char → Bool} {digit : Char → Nat}

/-- Digits are appended to a value when they are all digits. -/
theorem appendDigits?_eq
    (each : ∀ c, digitValue? base c = if isDigit c then some (digit c) else none) (start : Nat) :
    appendDigits? base start text =
      if text.all isDigit then some (text.foldl (fun total c => base * total + digit c) start)
      else none := by
  induction text generalizing start with
  | nil => rfl
  | cons c rest inductionHypothesis =>
      rw [appendDigits?, each, List.all_cons, List.foldl_cons]
      split
      · rename_i known
        rw [Option.bind_some, inductionHypothesis, known, Bool.true_and]
      · rename_i other
        simp [other]

/-- Digits are read as a number when there is one, and they are all digits. -/
theorem readDigits?_eq
    (each : ∀ c, digitValue? base c = if isDigit c then some (digit c) else none) :
    readDigits? base text = some value ↔ text ≠ [] ∧ (∀ c ∈ text, isDigit c = true) ∧
      text.foldl (fun total c => base * total + digit c) 0 = value := by
  rw [readDigits?, appendDigits?_eq each]
  simp only [List.isEmpty_iff, Option.ite_none_left_eq_some, Option.ite_none_right_eq_some,
    List.all_eq_true, Option.some.injEq, ne_eq]

end Digits

/-- What is read as digits is a numeral. -/
theorem readDigits?_eq_some_iff {value : Nat} :
    readDigits? 10 text = some value ↔ Numeral text value := by
  rw [readDigits?_eq digitValue?_eq]
  constructor
  · intro known
    exact ⟨known.1, known.2.1, known.2.2.symm⟩
  · intro numeral
    exact ⟨numeral.nonempty, numeral.digits, numeral.value_eq.symm⟩

/-- What is read as hexadecimal digits is a hexadecimal numeral. -/
theorem readHexDigits?_eq_some_iff {value : Nat} :
    readDigits? 16 text = some value ↔ HexNumeral text value := by
  have each : ∀ c, digitValue? 16 c =
      if decide (c.toLower ∈ hexDigits) then some (hexDigits.idxOf c.toLower) else none := by
    simpa using digitValue?_hex
  rw [readDigits?_eq each]
  simp only [decide_eq_true_eq]
  constructor
  · intro known
    exact ⟨known.1, known.2.1, known.2.2.symm⟩
  · intro numeral
    exact ⟨numeral.nonempty, numeral.digits, numeral.value_eq.symm⟩

theorem digitValue?_plus (base : Nat) : digitValue? base '+' = none := rfl

/-- What is read as a natural number up to a limit is a run of digits, perhaps with a plus sign before it. -/
theorem readNatural?_eq_some_iff {base limit value : Nat} : readNatural? base limit text = some value ↔
    (∃ digits, (text = digits ∨ text = '+' :: digits) ∧ readDigits? base digits = some value) ∧
      value ≤ limit := by
  have unsigned : ∀ rest, readDigits? base ('+' :: rest) = none := by
    intro rest
    rw [readDigits?, appendDigits?, digitValue?_plus]
    rfl
  unfold readNatural?
  dsimp only
  rw [Option.filter_eq_some_iff, decide_eq_true_eq]
  apply and_congr_left
  intro _
  split
  case h_1 digits =>
    constructor
    · intro read
      exact ⟨digits, .inr rfl, read⟩
    · intro written
      obtain ⟨other, same | same, read⟩ := written
      · rw [← same, unsigned] at read
        cases read
      · obtain rfl := (List.cons.inj same).2
        exact read
  case h_2 bare =>
    constructor
    · intro read
      exact ⟨text, .inl rfl, read⟩
    · intro written
      obtain ⟨digits, same | same, read⟩ := written
      · rw [same]
        exact read
      · exact absurd same (bare digits)

theorem Numeral.head_isDigit {c : Char} {rest : List Char} {value : Nat}
    (numeral : Numeral (c :: rest) value) : c.isDigit = true :=
  numeral.digits c List.mem_cons_self

/-- What is read as an integer of some bits is one that is written with at most one sign and fits. -/
theorem readInteger?_eq_some_iff {bits : Nat} : readInteger? bits text = some value ↔
    Signed text value ∧ -(Nat.pow 2 (bits - 1) : Int) ≤ value ∧ value < Nat.pow 2 (bits - 1) := by
  unfold readInteger?
  dsimp only
  rw [Option.filter_eq_some_iff, decide_eq_true_eq]
  refine and_congr_left fun _ => ?_
  split
  case h_1 digits =>
    simp only [Option.map_eq_some_iff, readDigits?_eq_some_iff]
    constructor
    · rintro ⟨magnitude, numeral, rfl⟩
      exact .plus numeral
    · intro signed
      cases signed with
      | bare numeral => exact absurd numeral.head_isDigit (by decide)
      | plus numeral => exact ⟨_, numeral, rfl⟩
  case h_2 digits =>
    constructor
    · intro read
      obtain ⟨negated, known, rfl⟩ := Option.map_eq_some_iff.1 read
      obtain ⟨magnitude, written, same⟩ := Option.bind_eq_some_iff.1 known
      obtain rfl := Option.some.inj same
      exact .minus (readDigits?_eq_some_iff.1 written)
    · intro signed
      cases signed with
      | bare numeral => exact absurd numeral.head_isDigit (by decide)
      | minus numeral =>
          rw [readDigits?_eq_some_iff.2 numeral]
          rfl
  case h_3 unsigned negative =>
    simp only [Option.map_eq_some_iff, readDigits?_eq_some_iff]
    constructor
    · rintro ⟨magnitude, numeral, rfl⟩
      exact .bare numeral
    · intro signed
      cases signed with
      | bare numeral => exact ⟨_, numeral, rfl⟩
      | plus numeral => exact absurd rfl (unsigned _)
      | minus numeral => exact absurd rfl (negative _)

/-- An integer is written with digits and perhaps a sign. -/
theorem Signed.letters (signed : Signed text value) :
    ∀ c ∈ text, c.isDigit = true ∨ c = '+' ∨ c = '-' := by
  intro c member
  cases signed with
  | bare numeral => exact .inl (numeral.digits c member)
  | plus numeral =>
      rcases List.mem_cons.1 member with rfl | later
      · exact .inr (.inl rfl)
      · exact .inl (numeral.digits c later)
  | minus numeral =>
      rcases List.mem_cons.1 member with rfl | later
      · exact .inr (.inr rfl)
      · exact .inl (numeral.digits c later)

theorem letters_of_readInteger? {bits : Nat} (read : readInteger? bits text = some value) :
    ∀ c ∈ text, c.isDigit = true ∨ c = '+' ∨ c = '-' :=
  (readInteger?_eq_some_iff.1 read).1.letters

theorem readWord?_eq_some_iff :
    readInteger? 32 text = some value ↔ Signed text value ∧ FitsWord value :=
  readInteger?_eq_some_iff

/-- An integer that fits into some bits fits into more. -/
theorem readInteger?_of_le {bits more : Nat} (wider : bits ≤ more)
    (read : readInteger? bits text = some value) : readInteger? more text = some value := by
  obtain ⟨signed, low, high⟩ := readInteger?_eq_some_iff.1 read
  have grows : Nat.pow 2 (bits - 1) ≤ Nat.pow 2 (more - 1) :=
    Nat.pow_le_pow_right (by decide) (by omega)
  exact readInteger?_eq_some_iff.2 ⟨signed, by omega, by omega⟩

end ElementQuery.Text

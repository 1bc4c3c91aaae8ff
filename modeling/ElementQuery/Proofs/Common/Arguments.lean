/-
This file compares the two readers of a counting argument on every text: the lenient reader counts what the
strict one counts, and warns where the strict one refuses.
-/

import ElementQuery.Proofs.Common.Counting

namespace ElementQuery

namespace Text

variable {text : List Char} {value : Int}

theorem isAlpha_eq_false_of_isDigit {c : Char} (digit : c.isDigit = true) : c.isAlpha = false := by
  have ascii := toNat_lt_of_isDigit digit
  revert digit
  refine forall_ascii ?_ ascii
  decide +kernel

/-- An integer is the same in small letters. -/
theorem Signed.of_toLower (signed : Signed (text.map Char.toLower) value) : Signed text value := by
  have kept : text.map Char.toLower = text := by
    conv => rhs; rw [← List.map_id text]
    apply List.map_congr_left
    intro c member
    apply toLower_of_isAlpha_eq_false
    rcases signed.letters c.toLower (List.mem_map_of_mem member) with digit | sign | sign
    · exact isAlpha_eq_false_of_isDigit digit
    · rw [sign]
      decide
    · rw [sign]
      decide
  rwa [kept] at signed

end Text

namespace Common

open ElementQuery.Group ElementQuery.Progression

variable {text : List Char} {progression : Progression}

/-- What the strict reader refuses, the lenient one does not read either, unless the text has blanks that the
strict reader keeps or is an integer that is too large for it. -/
theorem ofText?_of_progression?_eq_none (refused : Selector.progression? text = none)
    (blanks : ∀ c ∈ text, Text.isBlank c = true → Text.isAsciiBlank c = true)
    (fits : ∀ value, Text.Signed (text.filter fun c => !Text.isBlank c) value → Text.FitsWord value) :
    Argument.ofText? text = none := by
  have same : compact Text.isBlank text = compact Text.isAsciiBlank text := by
    apply compact_congr
    intro c member
    rw [Bool.eq_iff_iff]
    exact ⟨blanks c member, Text.isBlank_of_isAsciiBlank⟩
  have meaningless : ∀ progression, ¬Denotes LooseAddend (compact Text.isBlank text) progression := by
    intro progression denotes
    rw [Selector.progression?_of_denotes (same ▸ denotes)] at refused
    cases refused
  have small : ∀ value, Text.Signed (compact Text.isBlank text) value → Text.FitsWord value :=
    fun value written => fits value written.of_toLower
  unfold Argument.ofText?
  dsimp only
  generalize compact Text.isBlank text = letters at meaningless small ⊢
  have notOdd : letters ≠ "odd".toList := by
    rintro rfl
    exact meaningless _ .odd
  have notEven : letters ≠ "even".toList := by
    rintro rfl
    exact meaningless _ .even
  have notAlone : letters ≠ ['n'] := by
    rintro rfl
    exact meaningless _ (.formula .one fitsWord_one.1 .nothing fitsWord_one.2.2)
  have noInteger : Text.readInteger? 64 letters = none := by
    cases read : Text.readInteger? 64 letters with
    | none => rfl
    | some value =>
        have written := (Text.readInteger?_eq_some_iff.1 read).1
        exact absurd (.integer written (small value written)) (meaningless _)
  have noFormula : ofFormula? letters = none := by
    cases read : ofFormula? letters with
    | none => rfl
    | some progression =>
        obtain ⟨before, after, rfl, front, fitsStep, back, fitsOffset⟩ :=
          ofFormula?_eq_some_iff.1 read
        exact absurd (.formula front fitsStep back fitsOffset) (meaningless _)
  rw [if_neg notOdd, if_neg notEven, if_neg notAlone, noInteger, noFormula]
  rfl

/-- An argument that the strict reader accepts is read without a warning, and both readers count the same
positions with it. For an argument that it refuses, the lenient reader warns and counts every position, unless
the text has blanks beyond ASCII or is an integer of more than 32 bits. -/
theorem read_agrees (text : List Char) :
    (∀ progression, Selector.progression? text = some progression →
      (Argument.read text).warnings = [] ∧ ∀ place, 1 ≤ place → place ≤ 2 ^ 62 →
        (Argument.read text).value.contains place = progression.contains place) ∧
    (Selector.progression? text = none →
      (∀ c ∈ text, Text.isBlank c = true → Text.isAsciiBlank c = true) →
      (∀ value, Text.Signed (text.filter fun c => !Text.isBlank c) value → Text.FitsWord value) →
      (Argument.read text).value = .every ∧
        (Argument.read text).warnings = [⟨"Selector",
          "unrecognized nth argument '" ++ String.ofList text ++ "', matching every position"⟩]) := by
  constructor
  · intro progression read
    obtain ⟨argument, known, counts⟩ := ofText?_of_progression? read
    rw [Argument.read, known]
    refine ⟨rfl, fun place positive small => counts place positive ?_⟩
    have room : 2 ^ 62 < positionLimit := by decide
    omega
  · intro refused blanks fits
    rw [Argument.read, ofText?_of_progression?_eq_none refused blanks fits]
    exact ⟨rfl, rfl⟩

/-- A formula with blanks and a capital counts the first three positions for both readers, and a formula without
a sign before its offset is refused by the one and counts every position for the other. -/
theorem read_agrees_on_formulas :
    Selector.progression? " -N + 3".toList = some ⟨-1, 3⟩ ∧
    (Argument.read " -N + 3".toList).warnings = [] ∧
    (Argument.read " -N + 3".toList).value.contains 3 = true ∧
    (Argument.read " -N + 3".toList).value.contains 4 = false ∧
    Selector.progression? "2n3".toList = none ∧
    (Argument.read "2n3".toList).value = .every ∧
    (Argument.read "2n3".toList).warnings =
      [⟨"Selector", "unrecognized nth argument '2n3', matching every position"⟩] := by
  have accepted : Selector.progression? " -N + 3".toList = some ⟨-1, 3⟩ := by decide
  have refused : Selector.progression? "2n3".toList = none := by decide
  obtain ⟨silent, counts⟩ := (read_agrees " -N + 3".toList).1 _ accepted
  have solid : "2n3".toList.all (fun c => !Text.isBlank c) = true := by decide
  obtain ⟨all, warned⟩ := (read_agrees "2n3".toList).2 refused
    (fun c member blank => absurd (List.all_eq_true.1 solid c member) (by simp [blank]))
    fun value written => absurd (written.letters 'n' (by decide)) (by decide)
  refine ⟨accepted, silent, ?_, ?_, refused, all, warned⟩
  · rw [counts 3 (by decide) (by decide)]
    decide
  · rw [counts 4 (by decide) (by decide)]
    decide

end Common

end ElementQuery

/-
This file compares the two readings of a counting argument: both know the same letters, and both count
the same positions.
-/

import ElementQuery.Proofs.Common.Language
import ElementQuery.Proofs.Selector.Progressions

namespace ElementQuery

namespace Progression

variable {text : List Char}

theorem compact_congr {left other : Char → Bool} (same : ∀ c ∈ text, left c = other c) :
    compact left text = compact other text := by
  have kept : (text.filter fun c => !left c) = text.filter fun c => !other c :=
    List.filter_congr fun c member => by rw [same c member]
  rw [compact, compact, kept]

end Progression

namespace Common

variable {letters : List Char} {progression : Progression}

theorem isNameLetter_of_isDigit {c : Char} (digit : c.isDigit = true) : isNameLetter c = true := by
  simp [isNameLetter, Char.isAlphanum, digit]

theorem isNameLetter_of_written {c : Char} (written : c.isDigit = true ∨ c = '+' ∨ c = '-') :
    isNameLetter c = true ∨ c = '+' := by
  rcases written with digit | rfl | rfl
  · exact .inl (isNameLetter_of_isDigit digit)
  · exact .inr rfl
  · exact .inl (by decide)

/-- Without its blanks, an accepted argument has no other sign than those of numbers. -/
theorem letters_of_compact (read : Selector.progression? letters = some progression) :
    ∀ c ∈ Progression.compact Text.isAsciiBlank letters, isNameLetter c = true ∨ c = '+' := by
  rcases Selector.compact_of_progression? read with
    ⟨word, -⟩ | ⟨word, -⟩ | ⟨-, formula⟩ | ⟨offset, known, -⟩
  · rw [word]
    exact fun c member => .inl (isNameLetter_of_isName (by decide) c member)
  · rw [word]
    exact fun c member => .inl (isNameLetter_of_isName (by decide) c member)
  · intro c member
    rcases Progression.letters_of_ofFormula? formula c member with rfl | written
    · exact .inl (by decide)
    · exact isNameLetter_of_written written
  · exact fun c member => isNameLetter_of_written (Text.letters_of_readInteger? known c member)

/-- An argument that the strict reader accepts consists of blanks, letters of names and plus signs. -/
theorem letters_of_progression? (read : Selector.progression? letters = some progression) :
    ∀ c ∈ letters, Text.isAsciiBlank c = true ∨ isNameLetter c = true ∨ c = '+' := by
  intro c member
  by_cases blank : Text.isAsciiBlank c = true
  · exact .inl blank
  · right
    by_cases capital : c.isUpper = true
    · exact .inl (isNameLetter_of_isAlpha (Text.isAlpha_of_isUpper capital))
    · have kept : c.toLower ∈ Progression.compact Text.isAsciiBlank letters :=
        List.mem_map_of_mem (List.mem_filter.2 ⟨member, by simpa using blank⟩)
      rw [Text.toLower_of_isUpper_eq_false (by simpa using capital)] at kept
      exact letters_of_compact read c kept

/-- All blanks in an accepted argument are ASCII blanks, so that both readers leave out the same. -/
theorem compact_isBlank (read : Selector.progression? letters = some progression) :
    Progression.compact Text.isBlank letters = Progression.compact Text.isAsciiBlank letters := by
  apply Progression.compact_congr
  intro c member
  cases blank : Text.isAsciiBlank c with
  | true => exact Text.isBlank_of_isAsciiBlank blank
  | false =>
      rcases letters_of_progression? read c member with other | letter | rfl
      · rw [blank] at other
        cases other
      · exact isBlank_of_isNameLetter letter
      · decide

/-- An integer is one position to the lenient reader, and none when it is negative. -/
theorem ofText?_of_readInteger? {place : Int}
    (read : Text.readInteger? 32 (Progression.compact Text.isBlank letters) = some place) :
    Group.Argument.ofText? letters = some (.position place.toNat) := by
  unfold Group.Argument.ofText?
  dsimp only
  generalize Progression.compact Text.isBlank letters = compact at read ⊢
  have written := Text.letters_of_readInteger? read
  have wordless : ∀ word : List Char, (∃ c ∈ word, isNameLetter c = true ∧ c.isDigit = false ∧
      c ≠ '-') → compact ≠ word := by
    rintro word ⟨c, member, letter, other, different⟩ rfl
    rcases written c member with digit | rfl | rfl
    · rw [digit] at other
      cases other
    · cases letter
    · exact different rfl
  rw [if_neg (wordless _ ⟨'d', by decide⟩), if_neg (wordless _ ⟨'v', by decide⟩),
    if_neg (wordless _ ⟨'n', by decide⟩), Text.readInteger?_of_le (by decide) read]

theorem contains_position {offset : Int} {place : Nat} (positive : 0 < place)
    (small : place < Progression.positionLimit) :
    (Group.Argument.position offset.toNat).contains place =
      (⟨0, offset⟩ : Progression).contains place := by
  rw [Progression.contains, if_neg (Nat.not_le_of_lt small), if_pos rfl, Bool.eq_iff_iff]
  show (place == offset.toNat) = true ↔ ((place : Int) == offset) = true
  rw [beq_iff_eq, beq_iff_eq]
  omega

theorem contains_everyNatural {place : Nat} (small : place < Progression.positionLimit) :
    (⟨1, 0⟩ : Progression).contains place = true := by
  rw [Progression.contains, if_neg (Nat.not_le_of_lt small), if_neg (by decide)]
  simp

/-- A formula with the letter n is no integer. -/
theorem readInteger?_of_letter {bits : Nat} {text : List Char} (member : 'n' ∈ text) :
    Text.readInteger? bits text = none := by
  cases read : Text.readInteger? bits text with
  | none => rfl
  | some value => exact absurd (Text.letters_of_readInteger? read 'n' member) (by decide)

/-- Both readers take a formula for the same progression. -/
theorem ofText?_of_ofFormula? (letter : 'n' ∈ Progression.compact Text.isBlank letters)
    (joined : Progression.compact Text.isBlank letters ≠ ['n'])
    (read : Progression.ofFormula? (Progression.compact Text.isBlank letters) = some progression) :
    Group.Argument.ofText? letters = some (.progression progression) := by
  have written := Progression.letters_of_ofFormula? read
  have notOdd : Progression.compact Text.isBlank letters ≠ "odd".toList :=
    fun word => absurd (written 'd' (by rw [word]; decide)) (by decide)
  have notEven : Progression.compact Text.isBlank letters ≠ "even".toList :=
    fun word => absurd (written 'v' (by rw [word]; decide)) (by decide)
  rw [Group.Argument.ofText?, if_neg notOdd, if_neg notEven, if_neg joined,
    readInteger?_of_letter letter, read]
  rfl

/-- The lenient reader accepts what the strict one accepts, and counts the same positions with it. -/
theorem ofText?_of_progression? (read : Selector.progression? letters = some progression) :
    ∃ argument, Group.Argument.ofText? letters = some argument ∧ ∀ place, 0 < place →
      place < Progression.positionLimit → argument.contains place = progression.contains place := by
  have same := compact_isBlank read
  rcases Selector.compact_of_progression? read with
    ⟨word, rfl⟩ | ⟨word, rfl⟩ | ⟨letter, formula⟩ | ⟨offset, known, rfl⟩
  · refine ⟨.progression Progression.odd, ?_, fun _ _ _ => rfl⟩
    rw [Group.Argument.ofText?, same, word]
    decide
  · refine ⟨.progression Progression.even, ?_, fun _ _ _ => rfl⟩
    rw [Group.Argument.ofText?, same, word]
    decide
  · rw [← same] at letter formula
    by_cases alone : Progression.compact Text.isBlank letters = ['n']
    · rw [alone] at formula
      cases formula
      refine ⟨.every, ?_, fun _ _ small => (contains_everyNatural small).symm⟩
      rw [Group.Argument.ofText?, alone]
      decide
    · exact ⟨.progression progression, ofText?_of_ofFormula? letter alone formula, fun _ _ _ => rfl⟩
  · exact ⟨_, ofText?_of_readInteger? (same ▸ known), fun _ => contains_position⟩

/-- Both readers count the same positions with an accepted argument. -/
theorem contains_read (read : Selector.progression? letters = some progression) {place : Nat}
    (positive : 0 < place) (small : place < Progression.positionLimit) :
    (Group.Argument.read letters).value.contains place = progression.contains place := by
  obtain ⟨argument, known, counts⟩ := ofText?_of_progression? read
  rw [Group.Argument.read, known]
  exact counts place positive small

/-- The strict reader takes an integer for the progression that stands still. -/
theorem Position.progression?_eq (argument : Position) :
    Selector.progression? argument.letters = some ⟨0, argument.place⟩ := by
  obtain ⟨written, fits⟩ := Text.readWord?_eq_some_iff.1 argument.read
  exact Selector.progression?_of_denotes (.integer written fits)

/-- The lenient reader takes an integer for one position. -/
theorem Position.read_value (argument : Position) :
    (Group.Argument.read argument.letters).value = .position argument.place.toNat := by
  have read := argument.read
  rw [← compact_isBlank argument.progression?_eq] at read
  rw [Group.Argument.read, ofText?_of_readInteger? read]
  rfl

end Common

end ElementQuery

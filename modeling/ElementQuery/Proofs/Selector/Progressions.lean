/-
This file holds the notation of progressions and shows what the strict reader takes for one: every text of the
notation, and formulas with a second sign behind the plus sign of their offset.
-/

import ElementQuery.Proofs.Text.Integers
import ElementQuery.Proofs.Text.Search
import ElementQuery.Selector.Reader

namespace ElementQuery

namespace Progression

open ElementQuery.Text

/-- Before the letter of a formula stands its step, of which the sign and the digits may be left out. -/
inductive Coefficient : List Char → Int → Prop
  | one : Coefficient [] 1
  | plus : Coefficient ['+'] 1
  | minus : Coefficient ['-'] (-1)
  | signed {text : List Char} {value : Int} (written : Signed text value) : Coefficient text value

/-- Behind the letter of a formula stands nothing or its offset, with one sign before the digits. -/
inductive Addend : List Char → Int → Prop
  | nothing : Addend [] 0
  | plus {digits : List Char} {value : Nat} (numeral : Numeral digits value) :
      Addend ('+' :: digits) value
  | minus {digits : List Char} {value : Nat} (numeral : Numeral digits value) :
      Addend ('-' :: digits) (-value)

/-- What the readers take for an offset: behind a plus sign, the number may have a sign of its own. -/
inductive LooseAddend : List Char → Int → Prop
  | nothing : LooseAddend [] 0
  | plus {text : List Char} {value : Int} (written : Signed text value) :
      LooseAddend ('+' :: text) value
  | minus {digits : List Char} {value : Nat} (numeral : Numeral digits value) :
      LooseAddend ('-' :: digits) (-value)

/-- A progression is denoted by one of two words, by an integer, which is its only member, or by a formula of
a step, the letter n and an offset. The numbers have 32 bits. -/
inductive Denotes (addend : List Char → Int → Prop) : List Char → Progression → Prop
  | odd : Denotes addend "odd".toList ⟨2, 1⟩
  | even : Denotes addend "even".toList ⟨2, 0⟩
  | integer {text : List Char} {value : Int} (written : Signed text value) (fits : FitsWord value) :
      Denotes addend text ⟨0, value⟩
  | formula {before after : List Char} {step offset : Int} (front : Coefficient before step)
      (fitsStep : FitsWord step) (back : addend after offset) (fitsOffset : FitsWord offset) :
      Denotes addend (before ++ 'n' :: after) ⟨step, offset⟩

variable {text : List Char} {value : Int} {progression : Progression}

theorem Coefficient.letters (front : Coefficient text value) :
    ∀ c ∈ text, c.isDigit = true ∨ c = '+' ∨ c = '-' := by
  cases front with
  | one => simp
  | plus => simp
  | minus => simp
  | signed written => exact written.letters

theorem LooseAddend.letters (back : LooseAddend text value) :
    ∀ c ∈ text, c.isDigit = true ∨ c = '+' ∨ c = '-' := by
  intro c member
  cases back with
  | nothing => cases member
  | plus written =>
      rcases List.mem_cons.1 member with rfl | later
      · exact .inr (.inl rfl)
      · exact written.letters c later
  | minus numeral => exact (Signed.minus numeral).letters c member

/-- One sign before the digits is a sign that the readers take. -/
theorem Addend.loose (back : Addend text value) : LooseAddend text value := by
  cases back with
  | nothing => exact .nothing
  | plus numeral => exact .plus (.bare numeral)
  | minus numeral => exact .minus numeral

/-- Without a second sign, the readers take nothing but what the notation has. -/
theorem LooseAddend.addend (back : LooseAddend text value)
    (single : ∀ sign ∈ ['+', '-'], ¬['+', sign] <+: text) : Addend text value := by
  cases back with
  | nothing => exact .nothing
  | minus numeral => exact .minus numeral
  | plus written =>
      cases written with
      | bare numeral => exact .plus numeral
      | plus _ => exact absurd (List.prefix_append ['+', '+'] _) (single '+' (by decide))
      | minus _ => exact absurd (List.prefix_append ['+', '-'] _) (single '-' (by decide))

/-- A text goes on denoting its progression when more texts are taken for offsets. -/
theorem Denotes.imp {first second : List Char → Int → Prop} (denotes : Denotes first text progression)
    (weaker : ∀ {before after value}, text = before ++ 'n' :: after → first after value →
      second after value) : Denotes second text progression := by
  cases denotes with
  | odd => exact .odd
  | even => exact .even
  | integer written fits => exact .integer written fits
  | formula front fitsStep back fitsOffset =>
      exact .formula front fitsStep (weaker rfl back) fitsOffset

theorem fitsWord_one : FitsWord 1 ∧ FitsWord (-1) ∧ FitsWord 0 := by
  unfold FitsWord
  decide

theorem step?_eq_some_iff : step? text = some value ↔ Coefficient text value ∧ FitsWord value := by
  unfold step?
  split
  case h_1 =>
    constructor
    · rintro ⟨⟩
      exact ⟨.one, fitsWord_one.1⟩
    · rintro ⟨_ | _ | _ | written, -⟩
      · rfl
      · cases written with
        | bare numeral => exact absurd rfl numeral.nonempty
  case h_2 =>
    constructor
    · rintro ⟨⟩
      exact ⟨.plus, fitsWord_one.1⟩
    · rintro ⟨_ | _ | _ | written, -⟩
      · rfl
      · cases written with
        | bare numeral => exact absurd numeral.head_isDigit (by decide)
        | plus numeral => exact absurd rfl numeral.nonempty
  case h_3 =>
    constructor
    · rintro ⟨⟩
      exact ⟨.minus, fitsWord_one.2.1⟩
    · rintro ⟨_ | _ | _ | written, -⟩
      · rfl
      · cases written with
        | bare numeral => exact absurd numeral.head_isDigit (by decide)
        | minus numeral => exact absurd rfl numeral.nonempty
  case h_4 nonempty notPlus notMinus =>
    rw [readWord?_eq_some_iff]
    refine and_congr_left fun _ => ⟨.signed, fun front => ?_⟩
    cases front with
    | one => exact absurd rfl nonempty
    | plus => exact absurd rfl notPlus
    | minus => exact absurd rfl notMinus
    | signed written => exact written

theorem offset?_eq_some_iff :
    offset? text = some value ↔ LooseAddend text value ∧ FitsWord value := by
  unfold offset?
  split
  case h_1 =>
    constructor
    · rintro ⟨⟩
      exact ⟨.nothing, fitsWord_one.2.2⟩
    · rintro ⟨⟨⟩, -⟩
      rfl
  case h_2 rest =>
    rw [readWord?_eq_some_iff]
    refine and_congr_left fun _ => ⟨.plus, fun back => ?_⟩
    cases back with
    | plus written => exact written
  case h_3 rest =>
    rw [readWord?_eq_some_iff]
    refine and_congr_left fun _ => ⟨fun written => ?_, fun back => ?_⟩
    · cases written with
      | bare numeral => exact absurd numeral.head_isDigit (by decide)
      | minus numeral => exact .minus numeral
    · cases back with
      | minus numeral => exact .minus numeral
  case h_4 nonempty notPlus notMinus =>
    constructor
    · rintro ⟨⟩
    · rintro ⟨back, -⟩
      cases back with
      | nothing => exact absurd rfl nonempty
      | plus => exact absurd rfl (notPlus _)
      | minus => exact absurd rfl (notMinus _)

/-- What is read as a formula has a step before its first letter n and an offset behind it. -/
theorem ofFormula?_eq_some_iff : ofFormula? text = some progression ↔
    ∃ before after, text = before ++ 'n' :: after ∧ Coefficient before progression.step ∧
      FitsWord progression.step ∧ LooseAddend after progression.offset ∧
      FitsWord progression.offset := by
  constructor
  · intro read
    obtain ⟨parts, cut, rest⟩ := Option.bind_eq_some_iff.1 read
    obtain ⟨step, stepRead, rest⟩ := Option.bind_eq_some_iff.1 rest
    obtain ⟨offset, offsetRead, rfl⟩ := Option.map_eq_some_iff.1 rest
    have shape : text = parts.1 ++ ['n'] ++ parts.2 := cutAt?_sound cut
    obtain ⟨front, fitsStep⟩ := step?_eq_some_iff.1 stepRead
    obtain ⟨back, fitsOffset⟩ := offset?_eq_some_iff.1 offsetRead
    exact ⟨parts.1, parts.2, by simp [shape], front, fitsStep, back, fitsOffset⟩
  · rintro ⟨before, after, rfl, front, fitsStep, back, fitsOffset⟩
    have free : 'n' ∉ before := fun member => absurd (front.letters 'n' member) (by decide)
    rw [ofFormula?, cutAt?_mark free, Option.bind_some, step?_eq_some_iff.2 ⟨front, fitsStep⟩,
      Option.bind_some, offset?_eq_some_iff.2 ⟨back, fitsOffset⟩, Option.map_some]

/-- A formula is written with digits, signs and the letter n. -/
theorem letters_of_ofFormula? (read : ofFormula? text = some progression) :
    ∀ c ∈ text, c = 'n' ∨ c.isDigit = true ∨ c = '+' ∨ c = '-' := by
  obtain ⟨before, after, rfl, front, -, back, -⟩ := ofFormula?_eq_some_iff.1 read
  intro c member
  rcases List.mem_append.1 member with earlier | here
  · exact .inr (front.letters c earlier)
  · rcases List.mem_cons.1 here with rfl | later
    · exact .inl rfl
    · exact .inr (back.letters c later)

end Progression

namespace Selector

open ElementQuery.Progression

variable {text : List Char} {progression : Progression}

/-- Without its blanks, an argument that the strict reader accepts is a word, a formula or an integer. -/
theorem compact_of_progression? (read : progression? text = some progression) :
    (compact Text.isAsciiBlank text = "odd".toList ∧ progression = Progression.odd) ∨
    (compact Text.isAsciiBlank text = "even".toList ∧ progression = Progression.even) ∨
    ('n' ∈ compact Text.isAsciiBlank text ∧
      ofFormula? (compact Text.isAsciiBlank text) = some progression) ∨
    ∃ offset, Text.readInteger? 32 (compact Text.isAsciiBlank text) = some offset ∧
      progression = ⟨0, offset⟩ := by
  unfold progression? at read
  dsimp only at read
  split at read
  · rename_i word
    exact .inl ⟨word, (Option.some.inj read).symm⟩
  · split at read
    · rename_i word
      exact .inr (.inl ⟨word, (Option.some.inj read).symm⟩)
    · split at read
      · rename_i letter
        exact .inr (.inr (.inl ⟨List.contains_iff_mem.1 letter, read⟩))
      · obtain ⟨offset, known, rfl⟩ := Option.map_eq_some_iff.1 read
        exact .inr (.inr (.inr ⟨offset, known, rfl⟩))

theorem denotes_of_progression? (read : progression? text = some progression) :
    Denotes LooseAddend (compact Text.isAsciiBlank text) progression := by
  rcases compact_of_progression? read with
    ⟨word, rfl⟩ | ⟨word, rfl⟩ | ⟨-, formula⟩ | ⟨offset, known, rfl⟩
  · rw [word]
    exact .odd
  · rw [word]
    exact .even
  · obtain ⟨before, after, shape, front, fitsStep, back, fitsOffset⟩ :=
      ofFormula?_eq_some_iff.1 formula
    rw [shape]
    exact .formula front fitsStep back fitsOffset
  · obtain ⟨written, fits⟩ := Text.readWord?_eq_some_iff.1 known
    exact .integer written fits

theorem progression?_of_denotes
    (denotes : Denotes LooseAddend (compact Text.isAsciiBlank text) progression) :
    progression? text = some progression := by
  unfold progression?
  dsimp only
  generalize compact Text.isAsciiBlank text = letters at denotes ⊢
  cases denotes with
  | odd => rfl
  | even => rfl
  | integer written fits =>
      have known := written.letters
      have notOdd : letters ≠ "odd".toList := by
        rintro rfl
        exact absurd (known 'd' (by decide)) (by decide)
      have notEven : letters ≠ "even".toList := by
        rintro rfl
        exact absurd (known 'v' (by decide)) (by decide)
      have letterless : letters.contains 'n' = false := by
        rw [← Bool.not_eq_true, List.contains_iff_mem]
        exact fun member => absurd (known 'n' member) (by decide)
      rw [if_neg notOdd, if_neg notEven, letterless, Text.readWord?_eq_some_iff.2 ⟨written, fits⟩]
      rfl
  | @formula before after step offset front fitsStep back fitsOffset =>
      have read : ofFormula? (before ++ 'n' :: after) = some ⟨step, offset⟩ :=
        ofFormula?_eq_some_iff.2 ⟨before, after, rfl, front, fitsStep, back, fitsOffset⟩
      have known := letters_of_ofFormula? read
      have notOdd : before ++ 'n' :: after ≠ "odd".toList :=
        fun word => absurd (known 'd' (by rw [word]; decide)) (by decide)
      have notEven : before ++ 'n' :: after ≠ "even".toList :=
        fun word => absurd (known 'v' (by rw [word]; decide)) (by decide)
      rw [if_neg notOdd, if_neg notEven, if_pos (by simp), read]

/-- Without ASCII blanks and in small letters, what the strict reader takes for a progression denotes it: it is
one of the two words, an integer or a formula, and a formula may have a second sign behind the plus sign of
its offset. Where no sign follows that plus sign, the reader accepts the notation and nothing else. -/
theorem progression?_eq_some_iff_denotes (text : List Char) (progression : Progression) :
    (progression? text = some progression ↔
      Denotes LooseAddend (compact Text.isAsciiBlank text) progression) ∧
    ((∀ sign ∈ ['+', '-'], ¬['n', '+', sign] <:+: compact Text.isAsciiBlank text) →
      (progression? text = some progression ↔
        Denotes Addend (compact Text.isAsciiBlank text) progression)) := by
  refine ⟨⟨denotes_of_progression?, progression?_of_denotes⟩, fun single => ⟨fun read => ?_, ?_⟩⟩
  · refine (denotes_of_progression? read).imp fun {before _ _} shape back =>
      back.addend fun sign member => ?_
    rintro ⟨rest, rfl⟩
    exact single sign member ⟨before, rest, by simp [shape]⟩
  · exact fun denotes => progression?_of_denotes (denotes.imp fun _ back => back.loose)

/-- Blanks and capital letters do not matter, and behind the only sign of the offset there are digits. -/
theorem progression?_eq_some_iff_denotes_of_blanks :
    (∀ sign ∈ ['+', '-'], ¬['n', '+', sign] <:+: compact Text.isAsciiBlank " -N + 03".toList) ∧
    Denotes Addend (compact Text.isAsciiBlank " -N + 03".toList) ⟨-1, 3⟩ := by
  have single : ∀ sign ∈ ['+', '-'],
      ¬['n', '+', sign] <:+: compact Text.isAsciiBlank " -N + 03".toList := by
    have shape : compact Text.isAsciiBlank " -N + 03".toList = ['-', 'n', '+', '0', '3'] := by decide
    rw [shape]
    intro sign member found
    -- a zero stands behind the plus sign
    obtain rfl : sign = '0' := by simpa [List.infix_cons_iff] using found
    exact absurd member (by decide)
  exact ⟨single, ((progression?_eq_some_iff_denotes _ _).2 single).1 (by decide)⟩

/-- A formula with two signs is accepted, though the notation has one sign before the digits of an offset. -/
theorem progression?_of_two_signs : progression? "n+-3".toList = some ⟨1, -3⟩ ∧
    ∀ progression, ¬ Denotes Addend (compact Text.isAsciiBlank "n+-3".toList) progression := by
  refine ⟨by decide, fun progression denotes => ?_⟩
  have shape : compact Text.isAsciiBlank "n+-3".toList = ['n', '+', '-', '3'] := by decide
  rw [shape] at denotes
  generalize letters : ['n', '+', '-', '3'] = text at denotes
  cases denotes with
  | odd => exact absurd letters (by decide)
  | even => exact absurd letters (by decide)
  | integer written fits =>
      subst letters
      exact absurd (written.letters 'n' (by decide)) (by decide)
  | @formula before after step offset front fitsStep back fitsOffset =>
      cases before with
      | nil =>
          obtain rfl : after = ['+', '-', '3'] := (List.cons.inj letters).2.symm
          cases back with
          | plus numeral => exact absurd numeral.head_isDigit (by decide)
      | cons c before =>
          obtain ⟨rfl, -⟩ := List.cons.inj letters
          exact absurd (front.letters 'n' List.mem_cons_self) (by decide)

end Selector

end ElementQuery

/-
This file says how the names, the numbers and the literals of an expression are cut into tokens.
-/

import ElementQuery.Path.Lexer
import ElementQuery.Proofs.Text.Search

namespace ElementQuery.Path

/-- The tokens that a text is cut into. -/
def tokensFrom (afterOperand : Bool) (text : List Char) : List Token :=
  (lexemesFrom afterOperand text).map Lexeme.token

theorem tokensFrom_nil {afterOperand : Bool} : tokensFrom afterOperand [] = [] := by
  unfold tokensFrom
  rw [lexemesFrom]
  rfl

theorem tokensFrom_blank {afterOperand : Bool} {c : Char} {rest : List Char}
    (blank : Text.isBlank c = true) :
    tokensFrom afterOperand (c :: rest) = tokensFrom afterOperand rest := by
  have skipped : skipBlanks (c :: rest) = skipBlanks rest := List.dropWhile_cons_of_pos blank
  unfold tokensFrom
  rw [lexemesFrom, lexemesFrom]
  split <;> rename_i shape <;> rw [skipped] at shape
  · split <;> rename_i other
    · rfl
    · rw [shape] at other
      cases other
  · split <;> rename_i other
    · rw [shape] at other
      cases other
    · obtain ⟨rfl, rfl⟩ := List.cons.inj (shape.symm.trans other)
      rfl

theorem tokensFrom_blanks {afterOperand : Bool} {blanks rest : List Char}
    (all : ∀ c ∈ blanks, Text.isBlank c = true) :
    tokensFrom afterOperand (blanks ++ rest) = tokensFrom afterOperand rest := by
  induction blanks with
  | nil => rfl
  | cons c blanks inductionHypothesis =>
      rw [List.cons_append, tokensFrom_blank (all c List.mem_cons_self),
        inductionHypothesis fun d member => all d (List.mem_cons_of_mem _ member)]

theorem tokensFrom_cons {afterOperand : Bool} {c : Char} {rest : List Char}
    (solid : Text.isBlank c = false) :
    tokensFrom afterOperand (c :: rest) =
      (readToken afterOperand c rest).1 :: tokensFrom (readToken afterOperand c rest).1.endsOperand
        (readToken afterOperand c rest).2 := by
  have kept : skipBlanks (c :: rest) = c :: rest := List.dropWhile_cons_of_neg (by simp [solid])
  unfold tokensFrom
  rw [lexemesFrom]
  split <;> rename_i shape <;> rw [kept] at shape
  · cases shape
  · obtain ⟨rfl, rfl⟩ := List.cons.inj shape
    rfl

/-- A sign is cut off as its token. -/
theorem tokensFrom_sign {afterOperand : Bool} {c : Char} {rest left : List Char} {token : Token}
    (solid : Text.isBlank c = false) (sign : readSign? afterOperand (c :: rest) = some (token, left)) :
    tokensFrom afterOperand (c :: rest) = token :: tokensFrom token.endsOperand left := by
  rw [tokensFrom_cons solid]
  simp only [readToken, sign]

/-- No letter beyond ASCII is a blank. -/
theorem letterRuns_apart : ∀ run ∈ Text.blankRuns, ∀ n ∈ List.range' run.1 (run.2 + 1 - run.1),
    (Text.letterRuns.any fun run => decide (run.1 ≤ n) && decide (n ≤ run.2)) = false := by
  decide +kernel

theorem isNameStart_ascii : ∀ n < 128, isNameStart (Char.ofNat n) = true →
    Text.isBlank (Char.ofNat n) = false ∧ (Char.ofNat n).isDigit = false := by
  decide +kernel

/-- A character that begins a name is neither a blank nor a digit. -/
theorem isNameStart_apart {c : Char} (start : isNameStart c = true) :
    Text.isBlank c = false ∧ c.isDigit = false := by
  by_cases ascii : c.toNat < 128
  · revert start
    exact Text.forall_ascii isNameStart_ascii ascii
  · have letter : Text.inRuns Text.letterRuns c = true := by
      simp only [isNameStart, Text.isLetter, if_neg ascii, Bool.or_eq_true, beq_iff_eq] at start
      apply start.resolve_right
      intro same
      obtain rfl := same
      exact ascii (by decide)
    constructor
    · apply Bool.eq_false_iff.2
      intro blank
      obtain ⟨run, member, within⟩ := List.any_eq_true.1 blank
      simp only [Bool.and_eq_true, decide_eq_true_eq] at within
      have apart := letterRuns_apart run member c.toNat (List.mem_range'_1.2 (by omega))
      exact Bool.eq_false_iff.1 apart letter
    · apply Bool.eq_false_iff.2
      intro digit
      exact ascii (Text.toNat_lt_of_isDigit digit)

theorem isNameChar_blankRuns : ∀ run ∈ Text.blankRuns,
    ∀ n ∈ List.range' run.1 (run.2 + 1 - run.1), isNameChar (Char.ofNat n) = false := by
  decide +kernel

/-- No blank stands in a name. -/
theorem isNameChar_of_isBlank {c : Char} (blank : Text.isBlank c = true) : isNameChar c = false := by
  obtain ⟨run, member, within⟩ := List.any_eq_true.1 blank
  simp only [Bool.and_eq_true, decide_eq_true_eq] at within
  have apart := isNameChar_blankRuns run member c.toNat (List.mem_range'_1.2 (by omega))
  rwa [Char.ofNat_toNat] at apart

/-- A name can be written in an expression when it is cut off as one token. -/
def isPathName (name : String) : Bool :=
  match name.toList with
  | [] => false
  | c :: rest => isNameStart c && rest.all isNameChar

theorem readSign?_of_isNameStart {afterOperand : Bool} {c : Char} {rest : List Char}
    (start : isNameStart c = true) : readSign? afterOperand (c :: rest) = none := by
  unfold readSign?
  split <;> rename_i shape
  all_goals first
    | rfl
    | obtain ⟨rfl, -⟩ := List.cons.inj shape
      exact absurd start (by decide)

theorem readToken_of_isNameStart {afterOperand : Bool} {c : Char} {rest : List Char}
    (start : isNameStart c = true) : readToken afterOperand c rest = readName afterOperand (c :: rest) := by
  have noQuote : (c = '\x22' || c = '\x27') = false := by
    apply Bool.eq_false_iff.2
    intro quote
    rcases (by simpa using quote : c = '\x22' ∨ c = '\x27') with rfl | rfl
    · exact absurd start (by decide)
    · exact absurd start (by decide)
  have noNumber : (c.isDigit || c = '.') = false := by
    rw [(isNameStart_apart start).2, Bool.false_or]
    apply Bool.eq_false_iff.2
    intro point
    rw [of_decide_eq_true point] at start
    exact absurd start (by decide)
  rw [readToken, readSign?_of_isNameStart start]
  simp only [noQuote, noNumber, start, Bool.false_eq_true, if_false, if_true]

/-- What is read is the name with which a text begins, or the operator of that name. -/
theorem readName_eq {afterOperand : Bool} {name : String} {text rest : List Char}
    (taken : text.takeWhile isNameChar = name.toList) (left : text.dropWhile isNameChar = rest) :
    readName afterOperand text =
      match if afterOperand then operatorName? name else none with
      | some token => (token, rest)
      | none => nameToken name rest := by
  have spelled : String.ofList (text.takeWhile isNameChar) = name := by
    rw [taken, String.ofList_toList]
  subst spelled left
  rfl

/-- A name is cut off as a token where a character follows that cannot stand in it. -/
theorem exists_readName {name : String} {rest : List Char} (valid : isPathName name = true)
    (apart : ∀ c ∈ rest.head?, isNameChar c = false) :
    ∃ c more, name.toList ++ rest = c :: more ∧ Text.isBlank c = false ∧ ∀ afterOperand,
      readToken afterOperand c more =
        match if afterOperand then operatorName? name else none with
        | some token => (token, rest)
        | none => nameToken name rest := by
  unfold isPathName at valid
  cases letters : name.toList with
  | nil => simp [letters] at valid
  | cons c tail =>
      rw [letters] at valid
      obtain ⟨start, others⟩ := Bool.and_eq_true_iff.1 valid
      refine ⟨c, tail ++ rest, rfl, (isNameStart_apart start).1, fun afterOperand => ?_⟩
      have all : ∀ d ∈ c :: tail, isNameChar d = true := by
        intro d member
        rcases List.mem_cons.1 member with rfl | later
        · exact isNameChar_of_isNameStart start
        · exact List.all_eq_true.1 others d later
      obtain ⟨taken, left⟩ := Text.span_run all apart
      rw [readToken_of_isNameStart start]
      exact readName_eq (taken.trans letters.symm) left

theorem readToken_name {name : String} {rest : List Char} (valid : isPathName name = true)
    (apart : ∀ c ∈ rest.head?, isNameChar c = false) :
    ∃ c more, name.toList ++ rest = c :: more ∧ Text.isBlank c = false ∧
      readToken false c more = nameToken name rest := by
  obtain ⟨c, more, shape, solid, read⟩ := exists_readName valid apart
  exact ⟨c, more, shape, solid, read false⟩

theorem isDigit_ascii : ∀ n < 128, (Char.ofNat n).isDigit = true →
    Text.isBlank (Char.ofNat n) = false ∧ isNameChar (Char.ofNat n) = true := by
  decide +kernel

/-- A digit is no blank, and may stand in a name. -/
theorem isDigit_apart {c : Char} (digit : c.isDigit = true) :
    Text.isBlank c = false ∧ isNameChar c = true := by
  have ascii := Text.toNat_lt_of_isDigit digit
  revert digit
  exact Text.forall_ascii isDigit_ascii ascii

theorem readSign?_of_isDigit {afterOperand : Bool} {c : Char} {rest : List Char}
    (digit : c.isDigit = true) : readSign? afterOperand (c :: rest) = none := by
  unfold readSign?
  split <;> rename_i shape
  all_goals first
    | rfl
    | obtain ⟨rfl, -⟩ := List.cons.inj shape
      exact absurd digit (by decide)

theorem readToken_of_isDigit {afterOperand : Bool} {c : Char} {rest : List Char}
    (digit : c.isDigit = true) : readToken afterOperand c rest = readNumber (c :: rest) := by
  have noQuote : ¬(c = '\x22' || c = '\x27') = true := by
    intro quote
    rcases (by simpa using quote : c = '\x22' ∨ c = '\x27') with rfl | rfl
    · exact absurd digit (by decide)
    · exact absurd digit (by decide)
  rw [readToken, readSign?_of_isDigit digit]
  dsimp only
  rw [if_neg noQuote, digit, Bool.true_or, if_pos rfl]

/-- A point before a digit begins a number. -/
theorem readToken_of_point {afterOperand : Bool} {rest : List Char}
    (digit : ∃ c more, rest = c :: more ∧ c.isDigit = true) :
    readToken afterOperand '.' rest = readNumber ('.' :: rest) := by
  obtain ⟨c, more, rfl, digit⟩ := digit
  have noPoint : c ≠ '.' := by
    intro same
    obtain rfl := same
    exact absurd digit (by decide)
  have noSign : readSign? afterOperand ('.' :: c :: more) = none := by
    simp [readSign?, noPoint, digit]
  rw [readToken, noSign]
  rfl

/-- A number is written with digits, perhaps with a point and further digits behind it; there is a digit
on one side of the point at least. -/
structure Decimal where
  whole : List Char
  fraction : Option (List Char)
  digits : ∀ c ∈ whole ++ fraction.getD [], c.isDigit = true
  nonempty : whole ++ fraction.getD [] ≠ []

namespace Decimal

variable (decimal : Decimal)

def text : List Char :=
  decimal.whole ++ match decimal.fraction with
    | none => []
    | some fraction => '.' :: fraction

/-- All the digits, with as many decimal places as there are digits behind the point. -/
def value : Binary64 :=
  .ofDecimal (Binary64.digitsValue (decimal.whole ++ decimal.fraction.getD []))
    (decimal.fraction.getD []).length

variable {decimal}

theorem ofUnsigned?_text : Binary64.ofUnsigned? decimal.text = some decimal.value := by
  obtain ⟨whole, fraction, digits, nonempty⟩ := decimal
  unfold text value
  cases fraction with
  | none =>
      simp only [Option.getD_none, List.append_nil] at digits nonempty ⊢
      obtain ⟨taken, left⟩ := Text.span_run digits
        (by simp : ∀ c ∈ ([] : List Char).head?, c.isDigit = false)
      rw [List.append_nil] at taken left
      rw [Binary64.ofUnsigned?, taken, left]
      simp [nonempty]
  | some fraction =>
      simp only [Option.getD_some] at digits nonempty ⊢
      obtain ⟨taken, left⟩ := Text.span_run
        (fun c member => digits c (List.mem_append_left _ member))
        (by simp : ∀ c ∈ ('.' :: fraction).head?, c.isDigit = false)
      have behind : fraction.all Char.isDigit = true :=
        List.all_eq_true.2 fun c member => digits c (List.mem_append_right _ member)
      have full : (whole ++ fraction).isEmpty = false := List.isEmpty_eq_false_iff.2 nonempty
      rw [Binary64.ofUnsigned?, taken, left]
      dsimp only
      rw [behind, full]
      rfl

/-- Behind a number stands no digit and no point. -/
theorem cutNumber_text {rest : List Char} (apart : ∀ c ∈ rest.head?, isNameChar c = false) :
    cutNumber (decimal.text ++ rest) = (decimal.text, rest) := by
  obtain ⟨whole, fraction, digits, nonempty⟩ := decimal
  have noDigit : ∀ c ∈ rest.head?, c.isDigit = false := by
    intro c member
    apply Bool.eq_false_iff.2
    intro digit
    exact Bool.eq_false_iff.1 (apart c member) (isDigit_apart digit).2
  unfold text cutNumber
  cases fraction with
  | none =>
      simp only [Option.getD_none, List.append_nil] at digits ⊢
      obtain ⟨taken, left⟩ := Text.span_run digits noDigit
      rw [taken, left]
      cases rest with
      | nil => rfl
      | cons c rest =>
          have noPoint : c ≠ '.' := by
            intro same
            obtain rfl := same
            exact absurd (apart '.' rfl) (by decide)
          simp only [if_neg noPoint]
  | some fraction =>
      simp only [Option.getD_some, List.append_assoc, List.cons_append] at digits ⊢
      obtain ⟨taken, left⟩ := Text.span_run
        (fun c member => digits c (List.mem_append_left _ member))
        (by simp : ∀ c ∈ ('.' :: (fraction ++ rest)).head?, c.isDigit = false)
      obtain ⟨behind, further⟩ := Text.span_run
        (fun c member => digits c (List.mem_append_right _ member)) noDigit
      rw [taken, left]
      dsimp only
      rw [if_pos rfl, behind, further]

/-- A number begins with a digit or, before digits, with a point. -/
theorem readToken_text {rest : List Char} (apart : ∀ c ∈ rest.head?, isNameChar c = false) :
    ∃ c more, decimal.text ++ rest = c :: more ∧ Text.isBlank c = false ∧
      ∀ afterOperand, readToken afterOperand c more = (.number decimal.value, rest) := by
  have read : readNumber (decimal.text ++ rest) = (.number decimal.value, rest) := by
    rw [readNumber, cutNumber_text apart, ofUnsigned?_text, Option.getD_some]
  obtain ⟨whole, fraction, digits, nonempty⟩ := decimal
  cases whole with
  | cons c whole =>
      have digit := digits c (by simp)
      refine ⟨c, _, rfl, (isDigit_apart digit).1, fun afterOperand => ?_⟩
      rw [readToken_of_isDigit digit]
      exact read
  | nil =>
      cases fraction with
      | none => exact absurd rfl nonempty
      | some fraction =>
          refine ⟨'.', _, rfl, by decide, fun afterOperand => ?_⟩
          rw [readToken_of_point]
          · exact read
          · cases fraction with
            | nil => exact absurd rfl nonempty
            | cons c fraction => exact ⟨c, fraction ++ rest, rfl, digits c (by simp)⟩

/-- A natural number is written without a point. -/
def ofNat (n : Nat) : Decimal where
  whole := Nat.toDigits 10 n
  fraction := none
  digits := by
    intro c member
    rw [Option.getD_none, List.append_nil] at member
    exact Nat.isDigit_of_mem_toDigits (by decide) (by decide) member
  nonempty := by simp

theorem text_ofNat (n : Nat) : (ofNat n).text = (toString n).toList := by simp [text, ofNat]

theorem value_ofNat (n : Nat) : (ofNat n).value = .ofNat n := by
  have digits : Binary64.digitsValue (Nat.toDigits 10 n ++ []) = n := by
    rw [List.append_nil]
    exact Nat.ofDigitChars_ten_toDigits
  have noPlaces : Nat.pow 10 0 = 1 := rfl
  change Binary64.ofDecimal (Binary64.digitsValue (Nat.toDigits 10 n ++ [])) 0 = _
  rw [digits, Binary64.ofDecimal, noPlaces, Binary64.ofNat]

end Decimal

/-- A text between equal quotes that it does not contain is a literal. -/
theorem readLiteral_quoted {quote : Char} {text rest : List Char} (plain : quote ∉ text) :
    readLiteral quote (text ++ quote :: rest) = (.literal (String.ofList text), rest) := by
  have all : ∀ c ∈ text, (c != quote) = true := by
    intro c member
    rw [bne_iff_ne]
    intro same
    obtain rfl := same
    exact plain member
  obtain ⟨taken, left⟩ := Text.span_run all (by simp : ∀ c ∈ (quote :: rest).head?, (c != quote) = false)
  rw [readLiteral, taken, left]

/-- Behind an operand stands nothing that a name or a number would take up. -/
structure Edge (rest : List Char) : Prop where
  apart : ∀ c ∈ rest.head?, isNameChar c = false
  plain : ∀ c ∈ (skipBlanks rest).head?, c ≠ ':' ∧ c ≠ '('

theorem edge_nil : Edge [] := ⟨by simp, by simp [skipBlanks]⟩

theorem edge_cons {c : Char} {rest : List Char} (apart : isNameChar c = false)
    (solid : Text.isBlank c = false) (plain : c ≠ ':' ∧ c ≠ '(') : Edge (c :: rest) where
  apart := by simpa using apart
  plain := by
    rw [skipBlanks, List.dropWhile_cons_of_neg (by simp [solid])]
    simpa using plain

/-- Behind blanks, only what stands behind them matters. -/
theorem edge_blanks {blanks rest : List Char} {c : Char} (nonempty : blanks ≠ [])
    (all : ∀ d ∈ blanks, Text.isBlank d = true) (solid : Text.isBlank c = false)
    (plain : c ≠ ':' ∧ c ≠ '(') : Edge (blanks ++ c :: rest) where
  apart := by
    cases blanks with
    | nil => exact absurd rfl nonempty
    | cons d blanks =>
        intro first member
        obtain rfl : d = first := by simpa using member
        exact isNameChar_of_isBlank (all d List.mem_cons_self)
  plain := by
    rw [skipBlanks, List.dropWhile_append_of_pos all,
      List.dropWhile_cons_of_neg (by simp [solid])]
    simpa using plain

end ElementQuery.Path

/-
This file cuts path expressions into tokens as they are told by the characters that are left, without counting
bytes.
-/

import ElementQuery.Path.Cursor

namespace ElementQuery.Path

def skipBlanks (text : List Char) : List Char := text.dropWhile Text.isBlank

/-- The digits of a number end before a second point. -/
def cutNumber (text : List Char) : List Char × List Char :=
  let whole := text.takeWhile Char.isDigit
  match text.dropWhile Char.isDigit with
  | [] => (whole, [])
  | c :: rest =>
      if c = '.' then (whole ++ '.' :: rest.takeWhile Char.isDigit, rest.dropWhile Char.isDigit)
      else (whole, c :: rest)

def readNumber (text : List Char) : Token × List Char :=
  let parts := cutNumber text
  (.number ((Binary64.ofUnsigned? parts.1).getD .nan), parts.2)

/-- A literal goes on up to the same quote; without one the quote is unknown and takes the whole
rest. -/
def readLiteral (quote : Char) (text : List Char) : Token × List Char :=
  match text.dropWhile (· != quote) with
  | [] => (.unknown quote, [])
  | _ :: rest => (.literal (String.ofList (text.takeWhile (· != quote))), rest)

/-- A name is an axis before two colons and a kind of node before a parenthesis; blanks between them
belong to the token. -/
def nameToken (name : String) (rest : List Char) : Token × List Char :=
  let next := skipBlanks rest
  if "::".toList.isPrefixOf next then (.axis name, next)
  else if next.head? = some '(' && nodeTypes.contains name then (.nodeType name, next)
  else (.name name, rest)

def readName (afterOperand : Bool) (text : List Char) : Token × List Char :=
  let name := String.ofList (text.takeWhile isNameChar)
  let rest := text.dropWhile isNameChar
  match if afterOperand then operatorName? name else none with
  | some token => (token, rest)
  | none => nameToken name rest

/-- The tokens that are written with one character, or with two when a given one follows. -/
def readSign? (afterOperand : Bool) : List Char → Option (Token × List Char)
  | '/' :: '/' :: rest => some (.doubleSlash, rest)
  | '/' :: rest => some (.slash, rest)
  | '.' :: '.' :: rest => some (.doubleDot, rest)
  | '.' :: rest => if rest.head?.any Char.isDigit then none else some (.dot, rest)
  | '@' :: rest => some (.at, rest)
  | '|' :: rest => some (.pipe, rest)
  | '+' :: rest => some (.plus, rest)
  | '-' :: rest => some (.minus, rest)
  | '*' :: rest => some (if afterOperand then .multiply else .star, rest)
  | '=' :: rest => some (.equal, rest)
  | '!' :: '=' :: rest => some (.notEqual, rest)
  | '<' :: '=' :: rest => some (.atMost, rest)
  | '<' :: rest => some (.less, rest)
  | '>' :: '=' :: rest => some (.atLeast, rest)
  | '>' :: rest => some (.greater, rest)
  | '(' :: rest => some (.leftParen, rest)
  | ')' :: rest => some (.rightParen, rest)
  | '[' :: rest => some (.leftBracket, rest)
  | ']' :: rest => some (.rightBracket, rest)
  | ',' :: rest => some (.comma, rest)
  | ':' :: ':' :: rest => some (.doubleColon, rest)
  | _ => none

/-- One token is read from a text that does not begin with a blank. -/
def readToken (afterOperand : Bool) (c : Char) (rest : List Char) : Token × List Char :=
  match readSign? afterOperand (c :: rest) with
  | some found => found
  | none =>
      if c = '\x22' || c = '\x27' then readLiteral c rest
      else if c.isDigit || c = '.' then readNumber (c :: rest)
      else if isNameStart c then readName afterOperand (c :: rest)
      else (.unknown c, rest)

/-- The next token, or the end once only blanks are left. -/
def readNext (afterOperand : Bool) (text : List Char) : Token × List Char :=
  match skipBlanks text with
  | [] => (.finish, [])
  | c :: rest => readToken afterOperand c rest

section Cuts

variable {afterOperand : Bool} {text rest : List Char} {c : Char} {found : Token × List Char}

/-- A token other than the end is cut off, and what is left stood behind it in the text. -/
structure IsCut (text : List Char) (found : Token × List Char) : Prop where
  token : found.1 ≠ .finish
  behind : found.2 <:+ text

theorem IsCut.of_suffix (cut : IsCut rest found) (behind : rest <:+ text) : IsCut text found :=
  ⟨cut.token, cut.behind.trans behind⟩

theorem skipBlanks_suffix (text : List Char) : skipBlanks text <:+ text := List.dropWhile_suffix _

/-- A sign takes its first character and perhaps the one behind it. -/
theorem isCut_readSign? (read : readSign? afterOperand (c :: rest) = some found) : IsCut rest found := by
  unfold readSign? at read
  -- a single point may begin a number, and a star may be an operator
  split at read
  case h_4 =>
    split at read
    · contradiction
    · obtain ⟨rfl, rfl⟩ := List.cons.inj ‹_›
      cases read
      exact ⟨nofun, List.suffix_rfl⟩
  case h_9 =>
    obtain ⟨rfl, rfl⟩ := List.cons.inj ‹_›
    cases read
    exact ⟨by cases afterOperand <;> nofun, List.suffix_rfl⟩
  all_goals cases read
  all_goals obtain ⟨rfl, rfl⟩ := List.cons.inj ‹_›
  all_goals first
    | exact ⟨nofun, List.suffix_rfl⟩
    | exact ⟨nofun, List.suffix_cons _ _⟩

theorem cutNumber_suffix (text : List Char) : (cutNumber text).2 <:+ text.dropWhile Char.isDigit := by
  unfold cutNumber
  dsimp only
  split
  · exact List.nil_suffix
  · rename_i d more shape
    rw [shape]
    split
    · exact (List.dropWhile_suffix _).trans (List.suffix_cons _ _)
    · exact List.suffix_rfl

/-- A number takes the digit or the point with which it begins. -/
theorem isCut_readNumber (begins : (c.isDigit || c = '.') = true) : IsCut rest (readNumber (c :: rest)) := by
  refine ⟨nofun, ?_⟩
  by_cases digit : c.isDigit = true
  · have behind := cutNumber_suffix (c :: rest)
    rw [List.dropWhile_cons_of_pos digit] at behind
    exact behind.trans (List.dropWhile_suffix _)
  · have point : c = '.' := by simpa [digit] using begins
    subst point
    exact List.dropWhile_suffix _

theorem isCut_readLiteral (quote : Char) (text : List Char) : IsCut text (readLiteral quote text) := by
  have body : text.dropWhile (· != quote) <:+ text := List.dropWhile_suffix _
  unfold readLiteral
  split
  · exact ⟨by simp, List.nil_suffix⟩
  · rename_i shape
    rw [shape] at body
    exact ⟨by simp, (List.suffix_cons _ _).trans body⟩

theorem isCut_nameToken (name : String) (rest : List Char) : IsCut rest (nameToken name rest) := by
  unfold nameToken
  dsimp only
  split
  · exact ⟨nofun, skipBlanks_suffix rest⟩
  · split
    · exact ⟨nofun, skipBlanks_suffix rest⟩
    · exact ⟨nofun, List.suffix_rfl⟩

theorem operatorName?_ne_finish {name : String} : operatorName? name ≠ some .finish := by
  unfold operatorName?
  repeat' split
  all_goals nofun

theorem isNameChar_of_isNameStart (start : isNameStart c = true) : isNameChar c = true := by
  simp only [isNameStart, Bool.or_eq_true] at start
  rcases start with letter | underscore
  · simp [isNameChar, Text.isLetterOrNumber_of_isLetter letter]
  · simp [isNameChar, underscore]

theorem isCut_readName (start : isNameStart c = true) : IsCut rest (readName afterOperand (c :: rest)) := by
  have behind : (c :: rest).dropWhile isNameChar <:+ rest := by
    rw [List.dropWhile_cons_of_pos (isNameChar_of_isNameStart start)]
    exact List.dropWhile_suffix _
  unfold readName
  dsimp only
  split
  · rename_i token known
    refine ⟨?_, behind⟩
    rintro rfl
    split at known
    · exact operatorName?_ne_finish known
    · cases known
  · exact (isCut_nameToken _ _).of_suffix behind

/-- Every token takes at least the character with which it begins. -/
theorem isCut_readToken (afterOperand : Bool) (c : Char) (rest : List Char) :
    IsCut rest (readToken afterOperand c rest) := by
  unfold readToken
  split
  · rename_i read
    exact isCut_readSign? read
  · split
    · exact isCut_readLiteral c rest
    · split
      · rename_i begins
        exact isCut_readNumber begins
      · split
        · rename_i start
          exact isCut_readName start
        · exact ⟨nofun, List.suffix_rfl⟩

/-- The end is found where only blanks are left. Every other token is cut off behind the blanks. -/
theorem readNext_cases (afterOperand : Bool) (text : List Char) :
    ((∀ c ∈ text, Text.isBlank c = true) ∧ readNext afterOperand text = (.finish, [])) ∨
      ∃ c rest, c :: rest <:+ text ∧ Text.isBlank c = false ∧
        IsCut rest (readNext afterOperand text) := by
  have behind := skipBlanks_suffix text
  unfold readNext
  cases skipped : skipBlanks text with
  | nil =>
      have parts := @List.takeWhile_append_dropWhile _ Text.isBlank text
      rw [show text.dropWhile Text.isBlank = [] from skipped, List.append_nil] at parts
      have blank := @List.all_takeWhile _ Text.isBlank text
      rw [parts] at blank
      exact .inl ⟨List.all_eq_true.1 blank, rfl⟩
  | cons c rest =>
      have solid := List.head?_dropWhile_not Text.isBlank text
      rw [← skipBlanks, skipped] at solid
      rw [skipped] at behind
      exact .inr ⟨c, rest, behind, by simpa using solid, isCut_readToken afterOperand c rest⟩

theorem readNext_suffix (afterOperand : Bool) (text : List Char) :
    (readNext afterOperand text).2 <:+ text := by
  rcases readNext_cases afterOperand text with ⟨-, found⟩ | ⟨c, rest, behind, -, cut⟩
  · rw [found]
    exact List.nil_suffix
  · exact cut.behind.trans ((List.suffix_cons c rest).trans behind)

theorem readNext_eq_finish_iff :
    (readNext afterOperand text).1 = .finish ↔ ∀ c ∈ text, Text.isBlank c = true := by
  rcases readNext_cases afterOperand text with ⟨blank, found⟩ | ⟨c, rest, behind, solid, cut⟩
  · rw [found]
    exact iff_of_true rfl blank
  · refine iff_of_false cut.token fun blank => ?_
    rw [blank c (behind.subset List.mem_cons_self)] at solid
    cases solid

/-- Less is left behind a token. -/
theorem readNext_shorter (more : (readNext afterOperand text).1 ≠ .finish) :
    (readNext afterOperand text).2.length < text.length := by
  rcases readNext_cases afterOperand text with ⟨-, found⟩ | ⟨c, rest, behind, -, cut⟩
  · rw [found] at more
    exact absurd rfl more
  · exact Nat.lt_of_lt_of_le (Nat.lt_succ_of_le cut.behind.length_le) behind.length_le

end Cuts

/-- A lexeme is a token with the text that is left behind it. -/
structure Lexeme where
  token : Token
  left : List Char
deriving DecidableEq, Repr

/-- All tokens before the end. -/
def lexemesFrom (afterOperand : Bool) (text : List Char) : List Lexeme :=
  match _ : skipBlanks text with
  | [] => []
  | c :: rest =>
      let found := readToken afterOperand c rest
      ⟨found.1, found.2⟩ :: lexemesFrom found.1.endsOperand found.2
termination_by text.length
decreasing_by
  rename_i shape
  have whole := (skipBlanks_suffix text).length_le
  rw [shape] at whole
  exact Nat.lt_of_lt_of_le (Nat.lt_succ_of_le (isCut_readToken afterOperand c rest).behind.length_le) whole

/-- All tokens are the next one and those behind it. -/
theorem lexemesFrom_eq (afterOperand : Bool) (text : List Char) : lexemesFrom afterOperand text =
    if (readNext afterOperand text).1 = .finish then []
    else ⟨(readNext afterOperand text).1, (readNext afterOperand text).2⟩ ::
      lexemesFrom (readNext afterOperand text).1.endsOperand (readNext afterOperand text).2 := by
  rw [lexemesFrom, readNext]
  split <;> rename_i shape <;> rw [shape]
  · rfl
  · exact (if_neg (isCut_readToken _ _ _).token).symm

end ElementQuery.Path

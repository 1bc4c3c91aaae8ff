/-
This file shows that the cursor never stands within a character: it reads the tokens that are told by the
characters behind it. A lexer is such a cursor, and it finds all tokens of a text.
-/

import ElementQuery.Path.Characters

namespace ElementQuery.Path

namespace Cursor

/-- The cursor stands where a text is left. -/
def moveTo (cursor : Cursor) (left : List Char) : Cursor :=
  { cursor with pos := Text.byteLength cursor.whole - Text.byteLength left }

/-- A token has been read, and the cursor stands behind it. -/
def land (cursor : Cursor) (found : Token × List Char) : Token × Cursor :=
  (found.1, cursor.moveTo found.2)

variable {cursor : Cursor} {c d : Char} {text taken rest : List Char}

section Moves

theorem moveTo_afterOperand : (cursor.moveTo rest).afterOperand = cursor.afterOperand := rfl

theorem moveTo_pos {front : List Char} (whole : front ++ rest = cursor.whole) :
    (cursor.moveTo rest).pos = Text.byteLength front := by
  rw [moveTo, ← whole, Text.byteLength_append, Nat.add_sub_cancel]

/-- What stands behind a cursor is an end of its text, and tells where the cursor stands. -/
theorem eq_moveTo_of_rest? (found : cursor.rest? = some rest) :
    rest <:+ cursor.whole ∧ cursor = cursor.moveTo rest := by
  obtain ⟨⟨front, last⟩, cut, rfl⟩ := Option.map_eq_some_iff.1 found
  obtain ⟨shape, size⟩ := Text.cutBytes?_eq_some_iff.1 cut
  refine ⟨⟨front, shape.symm⟩, ?_⟩
  exact congrArg (fun pos => { cursor with pos }) ((moveTo_pos shape.symm).trans size).symm

variable (behind : rest <:+ cursor.whole)

include behind

theorem rest?_moveTo : (cursor.moveTo rest).rest? = some rest := by
  obtain ⟨front, whole⟩ := behind
  have cut := Text.cutBytes?_append front rest
  rw [whole] at cut
  rw [rest?, moveTo_pos whole, moveTo, cut]
  rfl

theorem peek?_moveTo : (cursor.moveTo rest).peek? = some rest.head? := by
  rw [peek?, rest?_moveTo behind]
  rfl

theorem peekAt?_moveTo (index : Nat) : (cursor.moveTo rest).peekAt? index = some rest[index]? := by
  rw [peekAt?, rest?_moveTo behind]
  rfl

omit behind

/-- A cursor that is moved on by the bytes of a text stands behind it. -/
theorem advance_moveTo {count : Nat} (taken : List Char) (behind : taken ++ rest <:+ cursor.whole)
    (size : Text.byteLength taken = count) :
    (cursor.moveTo (taken ++ rest)).advance count = cursor.moveTo rest := by
  obtain ⟨front, whole⟩ := behind
  have later := moveTo_pos ((List.append_assoc front taken rest).trans whole)
  have bytes := congrArg Text.byteLength whole
  rw [Text.byteLength_append, Text.byteLength_append] at bytes
  rw [Text.byteLength_append] at later
  have place : min ((cursor.moveTo (taken ++ rest)).pos + count) (Text.byteLength cursor.whole) =
      (cursor.moveTo rest).pos := by
    rw [moveTo_pos whole, later]
    omega
  exact congrArg (fun pos => { cursor with pos }) place

theorem advance_char {count : Nat} (behind : c :: rest <:+ cursor.whole) (size : c.utf8Size = count) :
    (cursor.moveTo (c :: rest)).advance count = cursor.moveTo rest :=
  advance_moveTo [c] behind size

theorem advance_two (behind : c :: d :: rest <:+ cursor.whole) (first : c.utf8Size = 1)
    (second : d.utf8Size = 1) : (cursor.moveTo (c :: d :: rest)).advance 2 = cursor.moveTo rest :=
  advance_moveTo [c, d] behind (by simp [first, second])

theorem since?_moveTo (behind : taken ++ rest <:+ cursor.whole) :
    (cursor.moveTo rest).since? (cursor.moveTo (taken ++ rest)).pos = some taken := by
  obtain ⟨front, whole⟩ := behind
  have later := (List.append_assoc front taken rest).trans whole
  have cut := Text.cutBytes?_append (front ++ taken) rest
  rw [later] at cut
  rw [since?, moveTo_pos whole, moveTo_pos later, moveTo, cut, Option.bind_some, Text.cutBytes?_append]
  rfl

/-- Characters are passed as long as they meet the test when each is passed by its own bytes. -/
theorem skipWhile?_moveTo {test : Char → Bool} {width : Char → Nat} {positive : ∀ c, 0 < width c}
    (fits : ∀ c, test c = true → c.utf8Size = width c) (behind : text <:+ cursor.whole) :
    (cursor.moveTo text).skipWhile? test width positive = some (cursor.moveTo (text.dropWhile test)) := by
  induction text with
  | nil =>
      rw [skipWhile?]
      split <;> rename_i next <;> rw [peek?_moveTo behind] at next <;> cases next
      rfl
  | cons c rest inductionHypothesis =>
      have tail : rest <:+ cursor.whole := (List.suffix_cons c rest).trans behind
      rw [skipWhile?]
      split <;> rename_i next <;> rw [peek?_moveTo behind] at next <;> cases next
      cases meets : test c with
      | true =>
          rw [if_pos rfl, advance_char behind (fits c meets), inductionHypothesis tail,
            List.dropWhile_cons_of_pos meets]
      | false => rw [if_neg Bool.false_ne_true, List.dropWhile_cons_of_neg (by simp [meets])]

theorem skipChars?_moveTo (test : Char → Bool) (behind : text <:+ cursor.whole) :
    (cursor.moveTo text).skipChars? test = some (cursor.moveTo (text.dropWhile test)) :=
  skipWhile?_moveTo (fun _ _ => rfl) behind

theorem skipBlanks?_moveTo (behind : text <:+ cursor.whole) :
    (cursor.moveTo text).skipBlanks? = some (cursor.moveTo (skipBlanks text)) :=
  skipChars?_moveTo Text.isBlank behind

/-- A digit is written with one byte. -/
theorem utf8Size_of_isDigit (digit : c.isDigit = true) : c.utf8Size = 1 := by
  simp only [Char.isDigit, Bool.and_eq_true, decide_eq_true_eq, UInt32.le_iff_toNat_le, ge_iff_le] at digit
  simp only [Char.utf8Size, UInt32.le_iff_toNat_le]
  rw [if_pos (Nat.le_trans digit.2 (by decide))]

theorem skipDigits?_moveTo (behind : text <:+ cursor.whole) :
    (cursor.moveTo text).skipDigits? = some (cursor.moveTo (text.dropWhile Char.isDigit)) :=
  skipWhile?_moveTo (fun _ => utf8Size_of_isDigit) behind

end Moves

section Tokens

/-- The digits of a number, and the point between them, are followed by what is left. -/
theorem cutNumber_append (text : List Char) : (cutNumber text).1 ++ (cutNumber text).2 = text := by
  have whole := @List.takeWhile_append_dropWhile _ Char.isDigit text
  unfold cutNumber
  dsimp only
  split
  · rename_i shape
    rwa [shape] at whole
  · rename_i d more shape
    rw [shape] at whole
    split
    · rename_i point
      rw [List.append_assoc, List.cons_append, List.takeWhile_append_dropWhile, ← point, whole]
    · exact whole

theorem skipFraction?_moveTo (behind : text.dropWhile Char.isDigit <:+ cursor.whole) :
    (cursor.moveTo (text.dropWhile Char.isDigit)).skipFraction? =
      some (cursor.moveTo (cutNumber text).2) := by
  rw [skipFraction?, peek?_moveTo behind]
  unfold cutNumber
  cases shape : text.dropWhile Char.isDigit with
  | nil => rfl
  | cons d more =>
      by_cases point : d = '.'
      · subst point
        rw [shape] at behind
        have moved : (cursor.moveTo ('.' :: more)).advance 1 = cursor.moveTo more := advance_char behind rfl
        simp only [Option.bind_eq_bind, Option.bind_some, List.head?_cons, if_true, moved,
          skipDigits?_moveTo ((List.suffix_cons '.' more).trans behind)]
      · simp only [Option.bind_eq_bind, Option.bind_some, List.head?_cons, Option.some.injEq, point, if_false]
        rfl

theorem readNumber?_moveTo (behind : text <:+ cursor.whole) :
    (cursor.moveTo text).readNumber? = some (cursor.land (readNumber text)) := by
  have whole : text.dropWhile Char.isDigit <:+ cursor.whole := (List.dropWhile_suffix _).trans behind
  have digits : (cursor.moveTo (cutNumber text).2).since? (cursor.moveTo text).pos =
      some (cutNumber text).1 := by
    have parts := cutNumber_append text
    have between := @since?_moveTo cursor (cutNumber text).1 (cutNumber text).2 (by rwa [parts])
    rwa [parts] at between
  simp only [readNumber?, skipDigits?_moveTo behind, skipFraction?_moveTo whole, digits, Option.bind_eq_bind,
    Option.bind_some]
  rfl

theorem readLiteral?_moveTo (behind : c :: rest <:+ cursor.whole) (size : c.utf8Size = 1) :
    (cursor.moveTo (c :: rest)).readLiteral? c = some (cursor.land (readLiteral c rest)) := by
  have body : rest <:+ cursor.whole := (List.suffix_cons c rest).trans behind
  have closing : rest.dropWhile (· != c) <:+ cursor.whole := (List.dropWhile_suffix _).trans body
  have text : (cursor.moveTo (rest.dropWhile (· != c))).since? (cursor.moveTo rest).pos =
      some (rest.takeWhile (· != c)) := by
    have whole := @List.takeWhile_append_dropWhile _ (· != c) rest
    have between := @since?_moveTo cursor (rest.takeWhile (· != c)) (rest.dropWhile (· != c)) (by rwa [whole])
    rwa [whole] at between
  simp only [readLiteral?, advance_char behind size, skipChars?_moveTo _ body, peek?_moveTo closing, text,
    Option.bind_eq_bind, Option.bind_some]
  unfold readLiteral
  cases shape : rest.dropWhile (· != c) with
  | nil => rfl
  | cons d more =>
      obtain rfl : d = c := by
        have apart := List.head?_dropWhile_not (· != c) rest
        rw [shape] at apart
        simpa using apart
      rw [shape] at closing
      simp only [List.head?_cons, Option.isNone_some, Bool.false_eq_true, if_false, advance_char closing size]
      rfl

theorem nameToken?_moveTo (behind : rest <:+ cursor.whole) (name : String) :
    (cursor.moveTo rest).nameToken? name = some (cursor.land (nameToken name rest)) := by
  have next : skipBlanks rest <:+ cursor.whole := (skipBlanks_suffix rest).trans behind
  simp only [nameToken?, skipBlanks?_moveTo behind, rest?_moveTo next, peek?_moveTo next, Option.bind_eq_bind,
    Option.bind_some]
  unfold nameToken
  dsimp only
  split
  · rfl
  · simp only [Bool.and_eq_true, decide_eq_true_eq, List.contains_iff_mem]
    split <;> rfl

theorem readName?_moveTo (behind : text <:+ cursor.whole) :
    (cursor.moveTo text).readName? = some (cursor.land (readName cursor.afterOperand text)) := by
  have read : text.dropWhile isNameChar <:+ cursor.whole := (List.dropWhile_suffix _).trans behind
  have name : (cursor.moveTo (text.dropWhile isNameChar)).since? (cursor.moveTo text).pos =
      some (text.takeWhile isNameChar) := by
    have whole := @List.takeWhile_append_dropWhile _ isNameChar text
    have between := @since?_moveTo cursor (text.takeWhile isNameChar) (text.dropWhile isNameChar)
      (by rwa [whole])
    rwa [whole] at between
  simp only [readName?, skipChars?_moveTo _ behind, name, Option.bind_eq_bind, Option.bind_some]
  rw [moveTo_afterOperand]
  unfold readName
  dsimp only
  cases if cursor.afterOperand then operatorName? (String.ofList (text.takeWhile isNameChar)) else none with
  | none => exact nameToken?_moveTo read _
  | some token => rfl

theorem single_moveTo (behind : c :: rest <:+ cursor.whole) (size : c.utf8Size = 1) (token : Token) :
    (cursor.moveTo (c :: rest)).single token = some (cursor.land (token, rest)) := by
  rw [single, advance_char behind size]
  rfl

/-- A sign that stands before the second one takes it. -/
theorem pair?_moveTo {second : Char} (behind : c :: rest <:+ cursor.whole) (size : c.utf8Size = 1)
    (same : second.utf8Size = 1) (alone both : Token) :
    (cursor.moveTo (c :: rest)).pair? second alone both =
      some (cursor.land (if rest.head? = some second then (both, rest.tail) else (alone, rest))) := by
  have tail : rest <:+ cursor.whole := (List.suffix_cons c rest).trans behind
  simp only [pair?, advance_char behind size, peek?_moveTo tail, Option.bind_eq_bind, Option.bind_some]
  split
  · rename_i follows
    obtain ⟨more, rfl⟩ := List.head?_eq_some_iff.1 follows
    rw [advance_char tail same]
    rfl
  · rfl

/-- Where no sign is read, the characters tell the other tokens. -/
theorem readOther?_moveTo (behind : c :: rest <:+ cursor.whole) (pointless : c ≠ '.')
    (unsigned : readSign? cursor.afterOperand (c :: rest) = none) :
    (cursor.moveTo (c :: rest)).readOther? c =
      some (cursor.land (readToken cursor.afterOperand c rest)) := by
  unfold readOther? readToken
  rw [unsigned]
  simp only [Bool.or_eq_true, decide_eq_true_eq, pointless, or_false]
  split
  · rename_i quoted
    exact readLiteral?_moveTo behind (by rcases quoted with rfl | rfl <;> rfl)
  · split
    · exact readNumber?_moveTo behind
    · split
      · exact readName?_moveTo behind
      · rw [advance_char behind rfl]
        rfl

/-- A sign of two characters is read, or what its first character begins. -/
theorem double?_moveTo {second : Char} (behind : c :: rest <:+ cursor.whole) (size : c.utf8Size = 1)
    (same : second.utf8Size = 1) (pointless : c ≠ '.') (both : Token)
    (unsigned : rest.head? ≠ some second → readSign? cursor.afterOperand (c :: rest) = none) :
    (cursor.moveTo (c :: rest)).double? c second both =
      some (cursor.land (if rest.head? = some second then (both, rest.tail)
        else readToken cursor.afterOperand c rest)) := by
  simp only [double?, peekAt?_moveTo behind, Option.bind_eq_bind, Option.bind_some, List.getElem?_cons_succ,
    ← List.head?_eq_getElem?]
  split
  · rename_i follows
    obtain ⟨more, rfl⟩ := List.head?_eq_some_iff.1 follows
    rw [advance_two behind size same]
    rfl
  · rename_i alone
    exact readOther?_moveTo behind pointless (unsigned alone)

theorem readPoint?_moveTo (behind : '.' :: rest <:+ cursor.whole) :
    (cursor.moveTo ('.' :: rest)).readPoint? = some (cursor.land (readToken cursor.afterOperand '.' rest)) := by
  rw [readPoint?, peekAt?_moveTo behind]
  cases rest with
  | nil => exact single_moveTo behind rfl _
  | cons d more =>
      simp only [Option.bind_eq_bind, Option.bind_some, List.getElem?_cons_succ, List.getElem?_cons_zero,
        Option.some.injEq, Option.any_some]
      by_cases second : d = '.'
      · subst second
        rw [if_pos rfl, advance_two behind rfl rfl]
        rfl
      · by_cases digit : d.isDigit = true
        · rw [if_neg second, if_pos digit, readNumber?_moveTo behind]
          simp [readToken, readSign?, second, digit]
        · rw [if_neg second, if_neg digit, single_moveTo behind rfl]
          simp [readToken, readSign?, second, digit]

/-- The cursor reads the token that the characters tell. -/
theorem readToken?_moveTo (behind : c :: rest <:+ cursor.whole) :
    (cursor.moveTo (c :: rest)).readToken? c =
      some (cursor.land (readToken cursor.afterOperand c rest)) := by
  unfold readToken?
  split
  case h_2 => exact readPoint?_moveTo behind
  -- the signs that may be followed by another character
  case h_1 | h_10 | h_11 =>
    rw [pair?_moveTo behind rfl rfl]
    cases rest with
    | nil => rfl
    | cons d more =>
        by_cases slash : d = '/' <;> by_cases equal : d = '=' <;> simp [readToken, readSign?, slash, equal]
  case h_9 | h_17 =>
    rw [double?_moveTo behind rfl rfl (by decide)]
    · cases rest with
      | nil => rfl
      | cons d more =>
          by_cases colon : d = ':' <;> by_cases equal : d = '=' <;> simp [readToken, readSign?, colon, equal]
    · intro alone
      cases rest with
      | nil => rfl
      | cons d more => simp_all [readSign?]
  case h_18 =>
    refine readOther?_moveTo behind ‹_› ?_
    unfold readSign?
    split
    all_goals first
      | rfl
      | exact absurd (List.cons.inj ‹_›).1 ‹_›
  all_goals exact single_moveTo behind rfl _

end Tokens

section Runs

/-- The cursor has read a token and knows whether it ended an operand. -/
def pass (cursor : Cursor) (found : Token × List Char) : Cursor :=
  { cursor.moveTo found.2 with afterOperand := found.1.endsOperand }

/-- A cursor with a text behind it finds a token, and stands before the text that is left. -/
theorem next?_eq (found : cursor.rest? = some text) :
    cursor.next? = some ((readNext cursor.afterOperand text).1,
      cursor.pass (readNext cursor.afterOperand text)) := by
  obtain ⟨behind, place⟩ := eq_moveTo_of_rest? found
  have skipped := (skipBlanks_suffix text).trans behind
  have scanned : (cursor.moveTo text).scan? = some (cursor.land (readNext cursor.afterOperand text)) := by
    simp only [scan?, skipBlanks?_moveTo behind, peek?_moveTo skipped, Option.bind_eq_bind, Option.bind_some]
    unfold readNext
    cases shape : skipBlanks text with
    | nil => rfl
    | cons c rest =>
        rw [shape] at skipped
        exact readToken?_moveTo skipped
  rw [← place] at scanned
  rw [next?, scanned]
  rfl

/-- Before the text that is left the cursor stands between two characters again. -/
theorem rest?_pass (found : cursor.rest? = some text) :
    (cursor.pass (readNext cursor.afterOperand text)).rest? =
      some (readNext cursor.afterOperand text).2 :=
  rest?_moveTo ((readNext_suffix _ text).trans (eq_moveTo_of_rest? found).1)

/-- At its beginning the whole text is behind the cursor. -/
theorem rest?_ofText (text : String) : (ofText text).rest? = some text.toList := by
  rw [rest?, ofText, Text.cutBytes?]
  rfl

end Runs

end Cursor

/-- A lexer is a cursor that does not stand within a character. -/
structure Lexer extends Cursor where
  stands : toCursor.rest?.isSome = true

namespace Lexer

variable (lexer : Lexer)

def ofText (text : String) : Lexer :=
  { toCursor := .ofText text, stands := by rw [Cursor.rest?_ofText]; rfl }

def position : Nat := lexer.pos

/-- The text behind the position. -/
def left : List Char := lexer.rest?.get lexer.stands

theorem rest?_eq : lexer.rest? = some lexer.left := (Option.some_get lexer.stands).symm

theorem ofText_left (text : String) : (ofText text).left = text.toList :=
  Option.some.inj ((rest?_eq _).symm.trans (Cursor.rest?_ofText text))

theorem next?_eq : lexer.next? = some ((readNext lexer.afterOperand lexer.left).1,
    lexer.pass (readNext lexer.afterOperand lexer.left)) :=
  Cursor.next?_eq lexer.rest?_eq

theorem isSome_next? : lexer.next?.isSome = true := by
  rw [next?_eq]
  rfl

/-- The cursor does not stand within a character behind a token either. -/
theorem stands_next : (lexer.next?.get lexer.isSome_next?).2.rest?.isSome = true := by
  simp only [next?_eq, Option.get_some, Cursor.rest?_pass lexer.rest?_eq, Option.isSome_some]

/-- The next token, or the end again and again once only blanks are left. -/
def next : Token × Lexer :=
  let found := lexer.next?.get lexer.isSome_next?
  (found.1, { toCursor := found.2, stands := lexer.stands_next })

theorem next_token : lexer.next.1 = (readNext lexer.afterOperand lexer.left).1 := by
  simp only [next, next?_eq, Option.get_some]

theorem next_toCursor : lexer.next.2.toCursor = lexer.pass (readNext lexer.afterOperand lexer.left) := by
  simp only [next, next?_eq, Option.get_some]

theorem next_left : lexer.next.2.left = (readNext lexer.afterOperand lexer.left).2 := by
  have behind := lexer.next.2.rest?_eq
  rw [next_toCursor, Cursor.rest?_pass lexer.rest?_eq] at behind
  exact (Option.some.inj behind).symm

theorem next_afterOperand :
    lexer.next.2.afterOperand = (readNext lexer.afterOperand lexer.left).1.endsOperand := by
  rw [next_toCursor]
  rfl

/-- All tokens before the end. -/
def lexemes (lexer : Lexer) : List Lexeme :=
  let found := lexer.next
  if found.1 = .finish then [] else ⟨found.1, found.2.left⟩ :: found.2.lexemes
termination_by lexer.left.length
decreasing_by
  rename_i more
  rw [next_token] at more
  rw [next_left]
  exact readNext_shorter more

/-- The lexer finds the tokens that the characters tell. -/
theorem lexemes_eq : lexer.lexemes = lexemesFrom lexer.afterOperand lexer.left := by
  fun_induction lexemes lexer with
  | case1 lexer found finish =>
      rw [lexemesFrom_eq, ← next_token, if_pos finish]
  | case2 lexer found more inductionHypothesis =>
      rw [lexemesFrom_eq, ← next_afterOperand, ← next_token, ← next_left, if_neg more, inductionHypothesis]

end Lexer

def lexemes (text : String) : List Lexeme := (Lexer.ofText text).lexemes

theorem lexemes_eq (text : String) : lexemes text = lexemesFrom false text.toList := by
  rw [lexemes, Lexer.lexemes_eq, Lexer.ofText_left]
  rfl

end ElementQuery.Path

/-
This file shows that the cursor goes through the text of an expression from one character to a later one until
only blanks are left, and stays there.
-/

import ElementQuery.Path.Parser
import Mathlib.Logic.Function.Iterate

namespace ElementQuery.Path

namespace Lexer

variable {text : String} {lexer : Lexer}

section Steps

/-- The end is found when only blanks are left. -/
theorem next_eq_finish_iff : lexer.next.1 = .finish ↔ ∀ c ∈ lexer.left, Text.isBlank c = true := by
  rw [next_token]
  exact readNext_eq_finish_iff

theorem next_left_suffix (lexer : Lexer) : lexer.next.2.left <:+ lexer.left := by
  rw [next_left]
  exact readNext_suffix _ _

theorem next_left_shorter (more : lexer.next.1 ≠ .finish) :
    lexer.next.2.left.length < lexer.left.length := by
  rw [next_token] at more
  rw [next_left]
  exact readNext_shorter more

/-- Nothing is left behind the end. -/
theorem next_left_of_finish (finish : lexer.next.1 = .finish) : lexer.next.2.left = [] := by
  rw [next_token] at finish
  rw [next_left]
  rcases readNext_cases lexer.afterOperand lexer.left with ⟨-, found⟩ | ⟨c, rest, -, -, cut⟩
  · rw [found]
  · exact absurd finish cut.token

/-- Once the end has been found it is found again. -/
theorem next_next_eq_finish (finish : lexer.next.1 = .finish) : lexer.next.2.next.1 = .finish := by
  have blank := next_eq_finish_iff.1 finish
  exact next_eq_finish_iff.2 fun c member => blank c ((next_left_suffix lexer).subset member)

/-- The text does not change. -/
theorem next_whole (lexer : Lexer) : lexer.next.2.whole = lexer.whole := by
  rw [next_toCursor]
  rfl

/-- The bytes before the position are those of the front of the text. -/
theorem exists_front (whole : lexer.whole = text.toList) :
    ∃ front : String, text = front ++ String.ofList lexer.left ∧ front.utf8ByteSize = lexer.pos := by
  obtain ⟨⟨front, shape⟩, place⟩ := Cursor.eq_moveTo_of_rest? lexer.rest?_eq
  refine ⟨String.ofList front, ?_, ?_⟩
  · rw [← String.ofList_append, shape, whole, String.ofList_toList]
  · rw [Text.utf8ByteSize_ofList, place, Cursor.moveTo_pos shape]

theorem position_add (whole : lexer.whole = text.toList) :
    lexer.pos + (String.ofList lexer.left).utf8ByteSize = text.utf8ByteSize := by
  obtain ⟨front, parts, size⟩ := exists_front whole
  rw [← size, ← String.utf8ByteSize_append, ← parts]

/-- The position is one where a character begins, or the end of the text. -/
theorem position_valid (whole : lexer.whole = text.toList) :
    (⟨lexer.pos⟩ : String.Pos.Raw).IsValid text := by
  have stands := lexer.stands
  rw [Cursor.rest?, Option.isSome_map, Text.isSome_cutBytes?_iff, whole, String.ofList_toList] at stands
  exact stands

/-- A token takes bytes of the text. -/
theorem position_lt_next (whole : lexer.whole = text.toList) (more : lexer.next.1 ≠ .finish) :
    lexer.pos < lexer.next.2.pos := by
  have before := position_add whole
  have behind := position_add ((next_whole lexer).trans whole)
  have less := Text.byteLength_lt_of_suffix (next_left_suffix lexer) (next_left_shorter more)
  rw [Text.utf8ByteSize_ofList] at before behind
  omega

/-- Every token takes a character for itself. -/
theorem length_lexemes_le (lexer : Lexer) : lexer.lexemes.length ≤ lexer.left.length := by
  fun_induction lexemes lexer with
  | case1 => exact Nat.zero_le _
  | case2 lexer found more inductionHypothesis =>
      exact Nat.succ_le_of_lt (Nat.lt_of_le_of_lt inductionHypothesis (next_left_shorter more))

end Steps

section Runs

/-- The lexer of a text after a number of calls. -/
def after (text : String) (count : Nat) : Lexer := (fun lexer => lexer.next.2)^[count] (ofText text)

theorem after_succ (text : String) (count : Nat) : after text (count + 1) = (after text count).next.2 :=
  Function.iterate_succ_apply' _ count _

theorem after_whole (text : String) (count : Nat) : (after text count).whole = text.toList := by
  induction count with
  | zero => rfl
  | succ count inductionHypothesis => rw [after_succ, next_whole, inductionHypothesis]

/-- What is found behind a number of calls are all tokens but as many. -/
theorem lexemes_after (text : String) (count : Nat) :
    (after text count).lexemes = (Path.lexemes text).drop count := by
  induction count with
  | zero => exact List.drop_zero.symm
  | succ count inductionHypothesis =>
      rw [after_succ, ← List.drop_drop, ← inductionHypothesis, lexemes.eq_1 (after text count)]
      split
      · rename_i finish
        -- behind the end there is nothing either
        rw [lexemes, if_pos (next_next_eq_finish finish)]
        rfl
      · rfl

/-- The tokens of a text are those that the calls find before the end. -/
theorem lexemes_getElem? (text : String) (count : Nat) :
    (Path.lexemes text)[count]? =
      if (after text count).next.1 = .finish then none
      else some ⟨(after text count).next.1, (after text (count + 1)).left⟩ := by
  rw [← List.head?_drop, ← lexemes_after, lexemes, after_succ]
  split <;> rfl

/-- The calls that find the tokens are followed by one that finds the end. -/
theorem finish_after_lexemes (text : String) : (after text (Path.lexemes text).length).next.1 = .finish := by
  have nothing := lexemes_getElem? text (Path.lexemes text).length
  rw [List.getElem?_eq_none (Nat.le_refl _)] at nothing
  by_contra more
  rw [if_neg more] at nothing
  cases nothing

theorem finish_forever {count : Nat} (finish : (after text count).next.1 = .finish) (more : Nat) :
    (after text (count + more)).next.1 = .finish := by
  induction more with
  | zero => exact finish
  | succ more inductionHypothesis =>
      rw [← Nat.add_assoc, after_succ]
      exact next_next_eq_finish inductionHypothesis

/-- A fault at a token is noted by the position of the lexer behind this token. -/
theorem offset_drop_lexemes (text : String) (count : Nat) :
    offset text.toList ((Path.lexemes text).drop count) = (after text (count + 1)).pos := by
  have bytes := position_add (after_whole text (count + 1))
  have size := Text.utf8ByteSize_ofList text.toList
  rw [String.ofList_toList] at size
  rw [Text.utf8ByteSize_ofList, size] at bytes
  have current := lexemes_getElem? text count
  rw [← List.head?_drop] at current
  split at current
  · rename_i finish
    rw [after_succ, next_left_of_finish finish, ← after_succ] at bytes
    rw [List.head?_eq_none_iff.1 current, offset]
    exact bytes.symm
  · obtain ⟨rest, shape⟩ := List.head?_eq_some_iff.1 current
    rw [shape, offset]
    dsimp only
    omega

end Runs

end Lexer

namespace Cursor

/-- The cursor in a text after a number of calls. There is none behind a call that has cut the text within a
character. -/
def after? (text : String) : Nat → Option Cursor
  | 0 => some (ofText text)
  | count + 1 => (after? text count).bind fun cursor => cursor.next?.map Prod.snd

/-- A call of the lexer is a call of its cursor. -/
theorem next?_toCursor (lexer : Lexer) : lexer.next? = some (lexer.next.1, lexer.next.2.toCursor) := by
  rw [lexer.next?_eq, lexer.next_token, lexer.next_toCursor]

/-- No call cuts the text within a character. -/
theorem after?_eq (text : String) (count : Nat) : after? text count = some (Lexer.after text count).toCursor := by
  induction count with
  | zero => rfl
  | succ count inductionHypothesis =>
      rw [after?, inductionHypothesis, Option.bind_some, next?_toCursor, Lexer.after_succ]
      rfl

/-- After every number of calls the cursor stands between two characters, with the rest of the text behind its
position, and the next call finds a token. A call that does not find the end moves the position on. The end is
found as soon as only blanks are left, and then by every further call. The tokens are those that the calls find
before it, and they are at most as many as the text has bytes. -/
theorem after?_advances (text : String) :
    (∀ count, ∃ cursor left token next, after? text count = some cursor ∧
      cursor.rest? = some left ∧ cursor.next? = some (token, next) ∧
      (⟨cursor.pos⟩ : String.Pos.Raw).IsValid text ∧
      (∃ front : String, text = front ++ String.ofList left ∧ front.utf8ByteSize = cursor.pos) ∧
      cursor.pos + (String.ofList left).utf8ByteSize = text.utf8ByteSize ∧
      (token ≠ .finish → cursor.pos < next.pos) ∧
      (token = .finish ↔ ∀ c ∈ left, Text.isBlank c = true) ∧
      (token = .finish → ∀ more, ∃ later last, after? text (count + more) = some later ∧
        later.next? = some (.finish, last)) ∧
      (lexemes text)[count]? =
        if token = .finish then none else next.rest?.map fun behind => ⟨token, behind⟩) ∧
    (∃ cursor last, after? text (lexemes text).length = some cursor ∧
      cursor.next? = some (.finish, last)) ∧
    (lexemes text).length ≤ text.utf8ByteSize := by
  refine ⟨fun count => ?calls, ?finish, ?bound⟩
  case calls =>
    have whole := Lexer.after_whole text count
    refine ⟨_, _, _, _, after?_eq text count, Lexer.rest?_eq _, next?_toCursor _, Lexer.position_valid whole,
      Lexer.exists_front whole, Lexer.position_add whole, Lexer.position_lt_next whole,
      Lexer.next_eq_finish_iff, fun finish more => ?_, ?_⟩
    · exact ⟨_, _, after?_eq text _, by rw [next?_toCursor, Lexer.finish_forever finish more]⟩
    · rw [Lexer.lexemes_getElem?, Lexer.after_succ, Lexer.rest?_eq]
      rfl
  case finish => exact ⟨_, _, after?_eq text _, by rw [next?_toCursor, Lexer.finish_after_lexemes]⟩
  case bound =>
    have bytes := Text.utf8ByteSize_ofList text.toList
    rw [String.ofList_toList] at bytes
    have few := (Lexer.ofText text).length_lexemes_le
    rw [Lexer.ofText_left] at few
    rw [bytes]
    exact Nat.le_trans few (Text.length_le_byteLength _)

end Cursor

end ElementQuery.Path

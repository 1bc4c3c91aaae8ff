/-
This file says which signs join two operands, and that a sign with white space around it is cut off as
one token.
-/

import ElementQuery.Proofs.Path.Grammar
import ElementQuery.Proofs.Path.Spelling

namespace ElementQuery.Path

/-- Two operands are joined by an operator, or by a bar when both are paths. -/
inductive Junction where
  | union
  | binary (operator : Operator)
deriving DecidableEq, Repr

def Operator.token : Operator → Token
  | .or => .or
  | .and => .and
  | .equal => .equal
  | .notEqual => .notEqual
  | .less => .less
  | .atMost => .atMost
  | .greater => .greater
  | .atLeast => .atLeast
  | .add => .plus
  | .subtract => .minus
  | .multiply => .multiply
  | .divide => .div
  | .modulo => .mod

/-- The level that applies an operator. -/
def Operator.level : Operator → Level
  | .or => .or
  | .and => .and
  | .equal | .notEqual => .equality
  | .less | .atMost | .greater | .atLeast => .relational
  | .add | .subtract => .additive
  | .multiply | .divide | .modulo => .multiplicative

namespace Junction

def symbol : Junction → String
  | union => "|"
  | binary operator => operator.symbol

def token : Junction → Token
  | union => .pipe
  | binary operator => operator.token

def level : Junction → Level
  | union => .union
  | binary operator => operator.level

/-- What a junction makes of its two operands. -/
def join : Junction → Expression → Expression → Expression
  | union => .union
  | binary operator => .binary operator

variable {junction : Junction}

theorem endsOperand_token : junction.token.endsOperand = false := by
  rcases junction with - | operator
  · rfl
  · cases operator <;> rfl

/-- The level of a junction applies it, to operands of the next level. -/
theorem operators?_level : ∃ operators below, junction.level.operators? = some (operators, below) ∧
    operators junction.token = some junction.join ∧ below.depth = junction.level.depth + 1 := by
  rcases junction with - | operator
  · exact ⟨_, _, rfl, rfl, rfl⟩
  · cases operator <;> exact ⟨_, _, rfl, rfl, rfl⟩

theorem depth_level_le : junction.level.depth ≤ 7 := by
  rcases junction with - | operator
  · decide
  · cases operator <;> decide

end Junction

/-- Behind an operand and before a blank, a symbol is cut off as a token. -/
def Cuts (symbol : String) (token : Token) : Prop :=
  ∀ d rest, Text.isBlank d = true → ∃ c more, symbol.toList ++ d :: rest = c :: more ∧
    Text.isBlank c = false ∧ (c ≠ ':' ∧ c ≠ '(') ∧ readToken true c more = (token, d :: rest)

namespace Cuts

theorem of_characters (c : Char) (symbols : String) {token : Token} (solid : Text.isBlank c = false)
    (plain : c ≠ ':' ∧ c ≠ '(') (known : ∀ d rest, d ≠ '=' →
      readSign? true (c :: (symbols.toList ++ d :: rest)) = some (token, d :: rest)) :
    Cuts (String.singleton c ++ symbols) token := by
  intro d rest blank
  have other : d ≠ '=' := by
    intro same
    obtain rfl := same
    exact absurd blank (by decide)
  refine ⟨c, symbols.toList ++ d :: rest, by simp, solid, plain, ?_⟩
  simp only [readToken, known d rest other]

theorem of_name {name : String} {token : Token} (valid : isPathName name = true)
    (known : operatorName? name = some token) : Cuts name token := by
  intro d rest blank
  obtain ⟨c, more, whole, solid, read⟩ := @exists_readName name (d :: rest) valid (by
    intro c member
    obtain rfl : d = c := by simpa using member
    exact isNameChar_of_isBlank blank)
  have start : isNameStart c = true := by
    unfold isPathName at valid
    cases letters : name.toList with
    | nil => simp [letters] at valid
    | cons d tail =>
        rw [letters] at valid whole
        obtain ⟨rfl, -⟩ := List.cons.inj whole
        exact (Bool.and_eq_true_iff.1 valid).1
  refine ⟨c, more, whole, solid, ⟨?_, ?_⟩, by rw [read true, if_pos rfl, known]⟩ <;>
    rintro rfl <;> exact absurd start (by decide)

end Cuts

theorem Operator.cuts (operator : Operator) : Cuts operator.symbol operator.token := by
  cases operator with
  | or => exact .of_name (by decide) rfl
  | and => exact .of_name (by decide) rfl
  | divide => exact .of_name (by decide) rfl
  | modulo => exact .of_name (by decide) rfl
  | equal => exact .of_characters '=' "" (by decide) (by decide) fun _ _ _ => rfl
  | notEqual => exact .of_characters '!' "=" (by decide) (by decide) fun _ _ _ => rfl
  | atMost => exact .of_characters '<' "=" (by decide) (by decide) fun _ _ _ => rfl
  | atLeast => exact .of_characters '>' "=" (by decide) (by decide) fun _ _ _ => rfl
  | add => exact .of_characters '+' "" (by decide) (by decide) fun _ _ _ => rfl
  | subtract => exact .of_characters '-' "" (by decide) (by decide) fun _ _ _ => rfl
  | multiply => exact .of_characters '*' "" (by decide) (by decide) fun _ _ _ => rfl
  -- with an equals sign behind it, either of these is another operator
  | less =>
      exact .of_characters '<' "" (by decide) (by decide) fun d rest other => by
        simp [readSign?, other, Operator.token]
  | greater =>
      exact .of_characters '>' "" (by decide) (by decide) fun d rest other => by
        simp [readSign?, other, Operator.token]

theorem Junction.cuts (junction : Junction) : Cuts junction.symbol junction.token := by
  cases junction with
  | union => exact .of_characters '|' "" (by decide) (by decide) fun _ _ _ => rfl
  | binary operator => exact operator.cuts

/-- White space is one blank or more. -/
structure Gap (text : String) : Prop where
  nonempty : text.toList ≠ []
  blank : ∀ c ∈ text.toList, Text.isBlank c = true

theorem Gap.space : Gap " " where
  nonempty := by simp
  blank := by
    intro c member
    obtain rfl : c = ' ' := by simpa using member
    decide

/-- Behind an operand, a sign is cut off as one token and an operand follows. -/
structure Sign (text : String) (token : Token) : Prop where
  spells : ∀ rest, tokensFrom true (text.toList ++ rest) = token :: tokensFrom false rest
  edge : ∀ rest, Edge (text.toList ++ rest)

namespace Sign

variable {before after : String}

/-- A junction with white space on either side is a sign. -/
theorem of_junction (front : Gap before) (back : Gap after) (junction : Junction) :
    Sign (before ++ junction.symbol ++ after) junction.token := by
  obtain ⟨d, blanks, blanksBehind⟩ := List.exists_cons_of_ne_nil back.nonempty
  have begins : ∀ rest : List Char, ∃ c more,
      (before ++ junction.symbol ++ after).toList ++ rest = before.toList ++ c :: more ∧
      Text.isBlank c = false ∧ (c ≠ ':' ∧ c ≠ '(') ∧
      readToken true c more = (junction.token, after.toList ++ rest) := by
    intro rest
    obtain ⟨c, more, shape, solid, plain, read⟩ := junction.cuts d (blanks ++ rest)
      (back.blank d (by simp [blanksBehind]))
    refine ⟨c, more, ?_, solid, plain, by rw [read, blanksBehind, List.cons_append]⟩
    rw [String.toList_append, String.toList_append, blanksBehind, List.append_assoc,
      List.append_assoc, List.cons_append, shape]
  constructor
  · intro rest
    obtain ⟨c, more, shape, solid, -, read⟩ := begins rest
    rw [shape, tokensFrom_blanks front.blank, tokensFrom_cons solid, read,
      Junction.endsOperand_token, tokensFrom_blanks back.blank]
  · intro rest
    obtain ⟨c, more, shape, solid, plain, -⟩ := begins rest
    rw [shape]
    exact edge_blanks front.nonempty front.blank solid plain

theorem spaced (operator : Operator) : Sign (" " ++ operator.symbol ++ " ") operator.token :=
  of_junction .space .space (.binary operator)

theorem equal : Sign " = " .equal := spaced .equal

theorem notEqual : Sign " != " .notEqual := spaced .notEqual

theorem atMost : Sign " <= " .atMost := spaced .atMost

theorem atLeast : Sign " >= " .atLeast := spaced .atLeast

theorem plus : Sign " + " .plus := spaced .add

theorem minus : Sign " - " .minus := spaced .subtract

theorem and : Sign " and " .and := spaced .and

theorem mod : Sign " mod " .mod := spaced .modulo

end Sign

end ElementQuery.Path

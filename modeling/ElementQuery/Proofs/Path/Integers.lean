/-
This file reads expressions over the integers: operators are exact, and the values of what is not
arithmetic, such as a count of nodes, are given. This is one reckoning of several: what is shown of every
reckoning holds as well of the evaluation of expressions, which is exact for 53 binary digits.
-/

import ElementQuery.Path.Comparison
import ElementQuery.Proofs.Number.Whole
import ElementQuery.Proofs.Path.Phrase

namespace ElementQuery

namespace Binary64

/-- The integer that a number without a fraction is; both zeros are zero. -/
def integer? (number : Binary64) : Option Int :=
  number.whole?.map fun whole => signed whole.1 whole.2

theorem integer?_eq_some_iff {number : Binary64} {value : Int} :
    number.integer? = some value ↔ Denotes number value := by
  unfold integer?
  rw [Option.map_eq_some_iff]
  constructor
  · rintro ⟨⟨negative, ones⟩, whole, rfl⟩
    cases number with
    | nan => cases whole
    | infinite => cases whole
    | finite sign units =>
        simp only [whole?, Option.ite_none_right_eq_some, Option.some.injEq, Prod.mk.injEq] at whole
        obtain ⟨exact, rfl, rfl⟩ := whole
        refine ⟨sign, units, rfl, ?_⟩
        rw [← signed_mul, Nat.div_mul_cancel (Nat.dvd_of_mod_eq_zero exact)]
  · intro denotes
    obtain ⟨negative, rfl, sign⟩ := denotes.exists_natAbs
    refine ⟨(negative, value.natAbs), ?_, sign⟩
    rw [whole?, if_pos (Nat.mul_mod_left _ _), Nat.mul_div_cancel _ scale_pos]

end Binary64

namespace Path

namespace Operator

/-- Arithmetic on integers. The remainder has the sign of the dividend, and there is none by zero; a
quotient need not be an integer. -/
def combine? : Operator → Int → Int → Option Int
  | .add, left, right => some (left + right)
  | .subtract, left, right => some (left - right)
  | .multiply, left, right => some (left * right)
  | .modulo, left, right => if right = 0 then none else some (left.tmod right)
  | _, _, _ => none

def compare? : Operator → Int → Int → Option Bool
  | .equal, left, right => some (decide (left = right))
  | .notEqual, left, right => some (decide (left ≠ right))
  | .less, left, right => some (decide (left < right))
  | .atMost, left, right => some (decide (left ≤ right))
  | .greater, left, right => some (decide (right < left))
  | .atLeast, left, right => some (decide (right ≤ left))
  | _, _, _ => none

variable {operator : Operator} {first second : Int} {holds : Bool}

/-- What compares integers evaluates both of its operands. -/
theorem eager_of_compare? (compared : operator.compare? first second = some holds) :
    operator ≠ .or ∧ operator ≠ .and := by
  constructor
  · rintro rfl
    cases compared
  · rintro rfl
    cases compared

theorem isArithmetic_of_compare? (compared : operator.compare? first second = some holds) :
    operator.isArithmetic = false := by
  cases operator <;> first | rfl | cases compared

end Operator

namespace Expression

variable (given : Expression → Option Int)

/-- The integer to which arithmetic on numbers and given integers amounts. -/
def integer? : Expression → Option Int
  | .number value => value.integer?
  | .negate operand => operand.integer?.map fun value => -value
  | .binary operator left right =>
      left.integer?.bind fun first => right.integer?.bind fun second =>
        operator.combine? first second
  | other => given other

/-- Whether comparisons of integers, joined by and and or, are true. -/
def truth? : Expression → Option Bool
  | .binary .or left right =>
      left.truth?.bind fun first => right.truth?.map fun second => first || second
  | .binary .and left right =>
      left.truth?.bind fun first => right.truth?.map fun second => first && second
  | .binary operator left right =>
      (left.integer? given).bind fun first => (right.integer? given).bind fun second =>
        operator.compare? first second
  | _ => none

/-- The expression of an integer: a negative one is written with a sign before it. -/
def ofInt : Int → Expression
  | .ofNat n => .number (.ofNat n)
  | .negSucc n => .negate (.number (.ofNat (n + 1)))

variable {given} {value : Int}

theorem integer?_ofInt (small : value.natAbs < 2 ^ 53) :
    (ofInt value).integer? given = some value := by
  cases value with
  | ofNat n => exact Binary64.integer?_eq_some_iff.2 (Binary64.denotes_ofNat small)
  | negSucc n =>
      have known := Binary64.integer?_eq_some_iff.2 (@Binary64.denotes_ofNat (n + 1) small)
      rw [ofInt, integer?, integer?, known]
      rfl

end Expression

/-- A reckoning says to which integers expressions amount and which of them are true. It is exact as long as
integers have 53 binary digits. -/
structure Reckoning where
  amounts : Expression → Int → Prop
  decides : Expression → Bool → Prop
  ofInt : ∀ {value : Int}, value.natAbs < 2 ^ 53 → amounts (.ofInt value) value
  subtract : ∀ {left right first second}, amounts left first → amounts right second →
    (first - second).natAbs < 2 ^ 53 → amounts (.binary .subtract left right) (first - second)
  modulo : ∀ {left right first second}, amounts left first → amounts right second → second ≠ 0 →
    amounts (.binary .modulo left right) (first.tmod second)
  compare : ∀ {operator left right first second holds}, amounts left first → amounts right second →
    Operator.compare? operator first second = some holds →
    decides (.binary operator left right) holds
  and : ∀ {left right first second}, decides left first → decides right second →
    decides (.binary .and left right) (first && second)

/-- What is read over the integers is exact, whatever is given. -/
def Reckoning.exact (given : Expression → Option Int) : Reckoning where
  amounts expression value := expression.integer? given = some value
  decides expression holds := expression.truth? given = some holds
  ofInt := Expression.integer?_ofInt
  subtract := by
    intro left right first second one two _
    rw [Expression.integer?, one, two]
    rfl
  modulo := by
    intro left right first second one two nonzero
    rw [Expression.integer?, one, two]
    exact if_neg nonzero
  compare := by
    intro operator left right first second holds one two compared
    have eager := Operator.eager_of_compare? compared
    rw [Expression.truth?, one, two]
    · exact compared
    · exact eager.1
    · exact eager.2
  and := by
    intro left right first second one two
    rw [Expression.truth?, one, two]
    rfl

theorem Phrase.integer (value : Int) : Phrase .unary (toString value) (.ofInt value) := by
  cases value with
  | ofNat n => exact (Phrase.number n).loosen (by decide)
  | negSucc n => exact ((Phrase.number (n + 1)).loosen (by decide : Level.depth .unary ≤ _)).negate

end Path

end ElementQuery

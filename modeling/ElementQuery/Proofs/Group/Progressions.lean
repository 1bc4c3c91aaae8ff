/-
This file says which positions are in a progression and as which expression the test for it is read, and
shows that by every exact reckoning the test is true just of the positions in the progression.
-/

import ElementQuery.Proofs.Group.Demands
import ElementQuery.Proofs.Path.Integers
import Mathlib.Tactic.TFAE

namespace ElementQuery

namespace Progression

/-- The step and the offset of a progression that is read have at most 32 bits. -/
structure Bounded (progression : Progression) : Prop where
  step : progression.step.natAbs ≤ 2 ^ 31
  offset : progression.offset.natAbs ≤ 2 ^ 31

variable {progression : Progression} {position : Nat}

/-- A position lies a natural number of steps from the offset. -/
theorem contains_iff (small : position < positionLimit) (moves : progression.step ≠ 0) :
    progression.contains position = true ↔
      ∃ count : Nat, (position : Int) - progression.offset = progression.step * count := by
  rw [contains, if_neg (Nat.not_le.2 small), if_neg moves]
  simp only [Bool.and_eq_true, beq_iff_eq, decide_eq_true_eq, ← Int.dvd_iff_tmod_eq_zero]
  constructor
  · intro given
    obtain ⟨⟨count, distance⟩, forwards⟩ := given
    rw [distance, Int.mul_tdiv_cancel_left _ moves] at forwards
    obtain ⟨count, rfl⟩ := Int.eq_ofNat_of_zero_le forwards
    exact ⟨count, distance⟩
  · intro given
    obtain ⟨count, distance⟩ := given
    rw [distance, Int.mul_tdiv_cancel_left _ moves]
    exact ⟨⟨count, rfl⟩, Int.natCast_nonneg count⟩

/-- A progression holds the offset and what lies a natural number of steps from it, also when the step is
zero. -/
theorem contains_iff_exists (small : position < positionLimit) :
    progression.contains position = true ↔
      ∃ count : Nat, (position : Int) = progression.step * count + progression.offset := by
  by_cases still : progression.step = 0
  · rw [contains, if_neg (Nat.not_le.2 small), if_pos still, beq_iff_eq, still]
    simp
  · rw [contains_iff small still]
    simp only [Int.sub_eq_iff_eq_add]

/-- With steps upwards, a position has the remainder of the offset and is not below it. -/
theorem contains_of_pos (small : position < positionLimit) (upwards : 0 < progression.step) :
    progression.contains position =
      (decide ((position : Int) % progression.step = progression.offset % progression.step) &&
        decide (progression.offset ≤ position)) := by
  rw [Bool.eq_iff_iff, contains_iff small (Int.ne_of_gt upwards), Bool.and_eq_true,
    decide_eq_true_eq, decide_eq_true_eq, Int.emod_eq_emod_iff_emod_sub_eq_zero,
    ← Int.dvd_iff_emod_eq_zero]
  constructor
  · intro given
    obtain ⟨count, distance⟩ := given
    have forwards : 0 ≤ progression.step * count :=
      Int.mul_nonneg (Int.le_of_lt upwards) (Int.natCast_nonneg count)
    exact ⟨⟨count, distance⟩, by omega⟩
  · intro given
    obtain ⟨⟨count, distance⟩, beyond⟩ := given
    have forwards : 0 ≤ progression.step * count := by omega
    obtain ⟨count, rfl⟩ := Int.eq_ofNat_of_zero_le (Int.nonneg_of_mul_nonneg_right forwards upwards)
    exact ⟨count, distance⟩

/-- When the offset lies within the first step upwards, the remainder alone tells: no position with the
remainder of the offset is below it. -/
theorem contains_of_le_step (small : position < positionLimit) (upwards : 0 < progression.step)
    (positive : 0 < position) (near : progression.offset ≤ progression.step) :
    progression.contains position =
      decide ((position : Int) % progression.step = progression.offset % progression.step) := by
  rw [contains_of_pos small upwards, Bool.eq_iff_iff, Bool.and_eq_true, decide_eq_true_eq,
    decide_eq_true_eq]
  refine ⟨And.left, fun same => ⟨same, ?_⟩⟩
  have multiple := Int.dvd_of_emod_eq_zero (Int.emod_eq_emod_iff_emod_sub_eq_zero.1 same.symm)
  apply Int.not_lt.1
  intro before
  have far := Int.le_of_dvd (by omega) multiple
  omega

/-- With steps downwards, a position is a whole count of steps from the offset and not above it. -/
theorem contains_of_neg (small : position < positionLimit) (downwards : progression.step < 0) :
    progression.contains position = (decide ((position : Int) ≤ progression.offset) &&
      decide ((progression.offset - position).tmod progression.step.natAbs = 0)) := by
  have turned : (progression.step.natAbs : Int) = -progression.step :=
    Int.ofNat_natAbs_of_nonpos (Int.le_of_lt downwards)
  rw [Bool.eq_iff_iff, contains_iff small (Int.ne_of_lt downwards), Bool.and_eq_true,
    decide_eq_true_eq, decide_eq_true_eq, ← Int.dvd_iff_tmod_eq_zero, turned]
  constructor
  · intro given
    obtain ⟨count, distance⟩ := given
    have backwards : progression.step * count ≤ 0 :=
      Int.mul_nonpos_of_nonpos_of_nonneg (Int.le_of_lt downwards) (Int.natCast_nonneg count)
    refine ⟨by omega, count, ?_⟩
    rw [Int.neg_mul]
    omega
  · intro given
    obtain ⟨beyond, count, distance⟩ := given
    have backwards : 0 ≤ -progression.step * count := by omega
    obtain ⟨count, rfl⟩ := Int.eq_ofNat_of_zero_le
      (Int.nonneg_of_mul_nonneg_right backwards (by omega))
    rw [Int.neg_mul] at distance
    exact ⟨count, by omega⟩

end Progression

namespace Group

open ElementQuery.Path

section Expressions

variable (place : Expression) (progression : Progression)

/-- A place has the remainder of the offset. -/
def alignedExpression : Expression :=
  .binary .equal (.binary .modulo place (.ofInt progression.step))
    (.ofInt (progression.offset % progression.step))

/-- The offset lies a whole count of steps from a place. -/
def distanceExpression : Expression :=
  .binary .equal (.binary .modulo (.binary .subtract (.ofInt progression.offset) place)
    (.ofInt progression.step.natAbs)) (.ofInt 0)

/-- The test for a progression is read as this expression. -/
def progressionExpression : Expression :=
  let offset := Expression.ofInt progression.offset
  let step := progression.step
  if step = 0 then .binary .equal place offset
  else if 0 < step then
    if step < progression.offset then
      .binary .and (alignedExpression place progression) (.binary .atLeast place offset)
    else alignedExpression place progression
  else .binary .and (.binary .atMost place offset) (distanceExpression place progression)

end Expressions

variable {progression : Progression} {given : Expression → Option Int} {position tag : String}
  {expression : Expression} {kin : Kin} {place : Nat}

theorem lt_positionLimit {place : Nat} (small : place ≤ 2 ^ 52) : place < Progression.positionLimit := by
  have room : 2 ^ 52 < Progression.positionLimit := by decide
  omega

theorem remainderText_eq (position step remainder : String) :
    "(" ++ position ++ ") mod " ++ step ++ " = " ++ remainder =
      "(" ++ position ++ ")" ++ " mod " ++ step ++ " = " ++ remainder := by
  simp [← String.toList_inj]

theorem beyondText_eq (front position offset : String) :
    front ++ (" and " ++ position ++ " >= " ++ offset) =
      front ++ " and " ++ (position ++ " >= " ++ offset) := by
  simp [← String.toList_inj]

theorem distanceText_eq (position offset step : String) :
    position ++ " <= " ++ offset ++ " and (" ++ offset ++ " - (" ++ position ++ ")) mod " ++ step ++
      " = 0" = position ++ " <= " ++ offset ++ " and " ++ ("(" ++ (offset ++ " - " ++
      ("(" ++ position ++ ")")) ++ ")" ++ " mod " ++ step ++ " = " ++ toString 0) := by
  simp [← String.toList_inj]

theorem phrase_aligned (phrase : Phrase .additive position expression) (progression : Progression) :
    Phrase .equality ("(" ++ position ++ ")" ++ " mod " ++ toString progression.step ++ " = " ++
      toString (progression.offset % progression.step)) (alignedExpression expression progression) := by
  have inner : Phrase .multiplicative ("(" ++ position ++ ")") expression :=
    (phrase.loosen (by decide)).paren.loosen (by decide)
  have reduced : Phrase .multiplicative ("(" ++ position ++ ")" ++ " mod " ++
      toString progression.step) (.binary .modulo expression (.ofInt progression.step)) :=
    .binary rfl rfl Sign.mod inner (.integer _)
  exact .binary rfl rfl Sign.equal (reduced.loosen (by decide)) ((Phrase.integer _).loosen (by decide))

theorem phrase_distance (phrase : Phrase .additive position expression) (progression : Progression) :
    Phrase .equality ("(" ++ (toString progression.offset ++ " - " ++ ("(" ++ position ++ ")")) ++ ")" ++
      " mod " ++ toString progression.step.natAbs ++ " = " ++ toString 0)
      (distanceExpression expression progression) := by
  have inner : Phrase .multiplicative ("(" ++ position ++ ")") expression :=
    (phrase.loosen (by decide)).paren.loosen (by decide)
  have difference : Phrase .additive (toString progression.offset ++ " - " ++ ("(" ++ position ++ ")"))
      (.binary .subtract (.ofInt progression.offset) expression) :=
    .binary rfl rfl Sign.minus ((Phrase.integer _).loosen (by decide)) inner
  have dividend := (difference.loosen (by decide)).paren
  have reduced : Phrase .multiplicative ("(" ++ (toString progression.offset ++ " - " ++
      ("(" ++ position ++ ")")) ++ ")" ++ " mod " ++ toString (progression.step.natAbs : Int))
      (.binary .modulo (.binary .subtract (.ofInt progression.offset) expression)
        (.ofInt progression.step.natAbs)) :=
    .binary rfl rfl Sign.mod (dividend.loosen (by decide)) (.integer _)
  exact .binary rfl rfl Sign.equal (reduced.loosen (by decide)) ((Phrase.integer 0).loosen (by decide))

/-- The test for a progression is read as one expression, whatever the position is read as. -/
theorem phrase_progressionTest (phrase : Phrase .additive position expression)
    (progression : Progression) :
    Phrase .and (progressionTest position progression)
      (progressionExpression expression progression) := by
  have place : Phrase .relational position expression := phrase.loosen (by decide)
  have offset : Phrase .additive (toString progression.offset) (.ofInt progression.offset) :=
    (Phrase.integer _).loosen (by decide)
  unfold progressionTest progressionExpression
  dsimp only
  split
  · exact (Phrase.binary rfl rfl Sign.equal (place.loosen (by decide))
      (offset.loosen (by decide))).loosen (by decide : Level.depth .and ≤ Level.depth .equality)
  · split
    · have aligned := (phrase_aligned phrase progression).loosen (by decide : Level.depth .and ≤ _)
      rw [remainderText_eq]
      split
      · rw [beyondText_eq]
        exact Phrase.binary rfl rfl Sign.and aligned
          ((Phrase.binary rfl rfl Sign.atLeast place offset).loosen (by decide))
      · rw [String.append_empty]
        exact aligned
    · rw [distanceText_eq]
      exact Phrase.binary rfl rfl Sign.and
        ((Phrase.binary rfl rfl Sign.atMost place offset).loosen (by decide))
        (phrase_distance phrase progression)

section Reckoning

variable (reckoning : Reckoning) (bounded : progression.Bounded)
  (amounts : reckoning.amounts expression (place : Int))

include bounded amounts

theorem decides_aligned (upwards : 0 < progression.step) :
    reckoning.decides (alignedExpression expression progression)
      (decide ((place : Int) % progression.step = progression.offset % progression.step)) := by
  have within := bounded.step
  have below := Int.emod_lt_of_pos progression.offset upwards
  have above := Int.emod_nonneg progression.offset (Int.ne_of_gt upwards)
  have reduced : reckoning.amounts (.binary .modulo expression (.ofInt progression.step))
      (place % progression.step) := by
    rw [← Int.tmod_eq_emod_of_nonneg (Int.natCast_nonneg place)]
    exact reckoning.modulo amounts (reckoning.ofInt (by omega)) (Int.ne_of_gt upwards)
  exact reckoning.compare reduced (reckoning.ofInt (by omega)) rfl

theorem decides_distance (moves : progression.step ≠ 0) (small : place ≤ 2 ^ 52) :
    reckoning.decides (distanceExpression expression progression)
      (decide ((progression.offset - place).tmod progression.step.natAbs = 0)) := by
  have within := bounded.step
  have near := bounded.offset
  have difference := reckoning.subtract (reckoning.ofInt (by omega)) amounts
    (by omega : (progression.offset - place).natAbs < 2 ^ 53)
  have reduced := reckoning.modulo difference
    (reckoning.ofInt (by omega : (progression.step.natAbs : Int).natAbs < 2 ^ 53)) (by omega)
  exact reckoning.compare reduced (reckoning.ofInt (by decide)) rfl

/-- By every reckoning, the test for a progression is true just of the places in the progression. -/
theorem decides_progressionExpression (positive : 0 < place) (small : place ≤ 2 ^ 52) :
    reckoning.decides (progressionExpression expression progression)
      (progression.contains place) := by
  have exact := lt_positionLimit small
  have near := bounded.offset
  have offset : reckoning.amounts (.ofInt progression.offset) progression.offset :=
    reckoning.ofInt (by omega)
  unfold progressionExpression
  dsimp only
  split
  · rename_i still
    rw [Progression.contains, if_neg (Nat.not_le.2 exact), if_pos still]
    exact reckoning.compare amounts offset rfl
  · split
    · rename_i upwards
      have aligned := decides_aligned reckoning bounded amounts upwards
      split
      · rw [Progression.contains_of_pos exact upwards]
        exact reckoning.and aligned (reckoning.compare amounts offset rfl)
      · rename_i early
        rw [Progression.contains_of_le_step exact upwards positive (Int.not_lt.1 early)]
        exact aligned
    · rename_i moves others
      rw [Progression.contains_of_neg exact (by omega)]
      exact reckoning.and (reckoning.compare amounts offset rfl)
        (decides_distance reckoning bounded amounts moves small)

end Reckoning

theorem testPhrase_kinTest (readable : tag = "*" ∨ isPathName tag = true) :
    TestPhrase (kinTest tag kin) (tagTest (kinTest tag kin)) := by
  apply testPhrase_tagTest
  cases kin with
  | any => exact .inl rfl
  | sameTag => exact readable

theorem placeText_eq : countTest "preceding-sibling" (kinTest tag kin) ++ " + 1" =
    "count(" ++ (Axis.precedingSibling.name ++ "::" ++ kinTest tag kin) ++ ")" ++ " + " ++
      toString 1 := by
  simp [countTest, Axis.name, ← String.toList_inj]
  rfl

/-- The count of the nodes to which a step leads is a call. -/
theorem phrase_count (axis : Axis) {text : String} {test : NodeTest} (tested : TestPhrase text test) :
    Phrase .primary ("count(" ++ (axis.name ++ "::" ++ text) ++ ")")
      (.call "count" [.step ⟨axis, test, []⟩]) := by
  have step : StepPhrase (axis.name ++ "::" ++ text) ⟨axis, test, []⟩ := by
    simpa using StepPhrase.axis axis tested [] (by simp)
  have call := Phrase.call (by decide : isPathName "count" = true) (by decide)
    [(axis.name ++ "::" ++ text, Expression.step ⟨axis, test, []⟩)] fun argument member => by
      rw [List.mem_singleton.1 member]
      exact (Phrase.step step).loosen (by decide)
  simpa using call

/-- A place is one more than the count of the siblings before it. -/
theorem phrase_place (named : tag = "*" ∨ isPathName tag = true) :
    Phrase .additive (countTest "preceding-sibling" (kinTest tag kin) ++ " + 1")
      (.binary .add (.call "count" [.step ⟨.precedingSibling, tagTest (kinTest tag kin), []⟩])
        (.ofInt 1)) := by
  have count := phrase_count .precedingSibling (@testPhrase_kinTest tag kin named)
  rw [placeText_eq]
  exact Phrase.binary rfl rfl Sign.plus (count.loosen (by decide))
    ((Phrase.integer 1).loosen (by decide))

/-- Four readings of a progression agree. As an argument of either kind of selector it contains the places
that lie a natural number of steps from the offset, and the test that is written for it, which can be read
and is true or false of every place, is true of them. -/
theorem tfae_progressionTest (bounded : progression.Bounded) (positive : 1 ≤ place)
    (small : place ≤ 2 ^ 52) (phrase : Phrase .additive position expression)
    (known : expression.integer? given = some (place : Int)) :
    ∃ test written holds, positionTest? position (.progression progression) = some test ∧
      Path.parse test = .ok written ∧ written.truth? given = some holds ∧
      [(Argument.progression progression).contains place = true,
        progression.contains place = true,
        ∃ count : Nat, (place : Int) = progression.step * count + progression.offset,
        holds = true].TFAE := by
  have exact := lt_positionLimit small
  refine ⟨_, _, _, rfl, (phrase_progressionTest phrase progression).parse_eq,
    decides_progressionExpression (.exact given) bounded known positive small, ?_⟩
  tfae_have 1 ↔ 2 := Iff.rfl
  tfae_have 2 ↔ 3 := Progression.contains_iff_exists exact
  tfae_have 4 ↔ 2 := Iff.rfl
  tfae_finish

/-- With four siblings before it, an element is at the fifth place: one step of three below the eighth. -/
theorem tfae_progressionTest_downwards :
    let given : Expression → Option Int := fun
      | .call "count" _ => some 4
      | _ => none
    let position := countTest "preceding-sibling" (kinTest "*" .any) ++ " + 1"
    let expression := Expression.binary .add
      (.call "count" [.step ⟨.precedingSibling, .any, []⟩]) (.ofInt 1)
    (Progression.mk (-3) 8).Bounded ∧ 1 ≤ 5 ∧ 5 ≤ 2 ^ 52 ∧
      Phrase .additive position expression ∧ expression.integer? given = some (5 : Nat) ∧
      ∃ test written holds, positionTest? position (.progression ⟨-3, 8⟩) = some test ∧
        Path.parse test = .ok written ∧ written.truth? given = some holds ∧
        [(Argument.progression ⟨-3, 8⟩).contains 5 = true,
          (Progression.mk (-3) 8).contains 5 = true,
          ∃ count : Nat, ((5 : Nat) : Int) = -3 * count + 8,
          holds = true].TFAE := by
  intro given position expression
  have bounded : (Progression.mk (-3) 8).Bounded := ⟨by decide, by decide⟩
  have phrase : Phrase .additive position expression := @phrase_place "*" .any (.inl rfl)
  have known : expression.integer? given = some (5 : Nat) := by
    have one : (Expression.ofInt 1).integer? given = some 1 := Expression.integer?_ofInt (by decide)
    show (some 4).bind (fun first => ((Expression.ofInt 1).integer? given).bind fun second =>
      Path.Operator.add.combine? first second) = _
    rw [one]
    rfl
  exact ⟨bounded, by decide, by decide, phrase, known,
    tfae_progressionTest bounded (by decide) (by decide) phrase known⟩

end Group

end ElementQuery

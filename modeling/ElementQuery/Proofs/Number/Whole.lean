/-
This file shows that computing with integers of at most 53 binary digits is exact.
-/

import ElementQuery.Number.Binary64
import Mathlib.Algebra.Group.Basic
import Mathlib.Algebra.Group.Int.Defs
import Mathlib.Algebra.Group.Nat.Defs

namespace ElementQuery.Binary64

/-- A number denotes an integer when it is this many ones; both zeros denote zero. -/
def Denotes (number : Binary64) (value : Int) : Prop :=
  ∃ negative units, number = .finite negative units ∧ signed negative units = value * scale

variable {first second number : Binary64} {left right value : Int} {negative : Bool}

theorem scale_eq_pow : scale = 2 ^ fractionBits := by
  unfold scale
  generalize fractionBits = bits
  exact Nat.pow_eq

theorem limit_eq_pow : limit = 2 ^ (1024 + fractionBits) := by
  unfold limit
  generalize 1024 + fractionBits = bits
  exact Nat.pow_eq

theorem scale_pos : 0 < scale := by
  rw [scale_eq_pow]
  exact Nat.pow_pos (by decide)

theorem scale_eq : scale = 2 ^ (fractionBits - 1) * 2 := by
  rw [scale_eq_pow]
  exact (pow_sub_one_mul (by decide : fractionBits ≠ 0) 2).symm

theorem half_scale : scale / 2 = 2 ^ (fractionBits - 1) := by
  rw [scale_eq, Nat.mul_div_cancel _ (by decide)]

theorem gapExponent_le {digits exponent : Nat} (small : digits < 2 ^ 53) :
    gapExponent (digits * 2 ^ exponent) ≤ exponent := by
  unfold gapExponent
  by_cases isZero : digits * 2 ^ exponent = 0
  · rw [isZero]
    exact Nat.zero_le _
  · have below : digits * 2 ^ exponent < 2 ^ (53 + exponent) := by
      rw [Nat.pow_add]
      exact Nat.mul_lt_mul_of_pos_right small (Nat.pow_pos (by decide))
    have := (Nat.log2_lt isZero).2 below
    omega

theorem roundHalfEven_mul (quotient : Nat) {denominator : Nat} (positive : 0 < denominator) :
    roundHalfEven (quotient * denominator) denominator = quotient := by
  unfold roundHalfEven
  rw [Nat.mul_mod_left, Nat.mul_div_cancel _ positive]
  exact if_pos positive

/-- A count of units is rounded to the nearest one that has 53 binary digits before its last zeros. -/
def nearest (units : Nat) : Nat :=
  roundHalfEven units (2 ^ gapExponent units) * 2 ^ gapExponent units

theorem roundQuotient_one (negative : Bool) (units : Nat) : roundQuotient negative units 1 =
    if nearest units < limit then .finite negative (nearest units) else .infinite negative := by
  unfold nearest
  rw [roundQuotient, Nat.div_one]
  simp only [Nat.pow_eq, Nat.one_mul]

/-- A count of units that has at most 53 binary digits before its last zeros is not rounded. -/
theorem roundQuotient_of_digits {digits exponent : Nat} (small : digits < 2 ^ 53)
    (finite : 53 + exponent ≤ 1024 + fractionBits) :
    roundQuotient negative (digits * 2 ^ exponent) 1 = .finite negative (digits * 2 ^ exponent) := by
  have gap := @gapExponent_le digits exponent small
  have below : digits * 2 ^ exponent < limit := calc
    digits * 2 ^ exponent < 2 ^ 53 * 2 ^ exponent :=
      Nat.mul_lt_mul_of_pos_right small (Nat.pow_pos (by decide))
    _ = 2 ^ (53 + exponent) := (Nat.pow_add _ _ _).symm
    _ ≤ 2 ^ (1024 + fractionBits) := Nat.pow_le_pow_right (by decide) finite
    _ = limit := limit_eq_pow.symm
  have exact : digits * 2 ^ exponent =
      digits * 2 ^ (exponent - gapExponent (digits * 2 ^ exponent)) *
        2 ^ gapExponent (digits * 2 ^ exponent) := by
    rw [Nat.mul_assoc, ← Nat.pow_add, Nat.sub_add_cancel gap]
  have kept : nearest (digits * 2 ^ exponent) = digits * 2 ^ exponent := by
    unfold nearest
    generalize gapExponent (digits * 2 ^ exponent) = spare at exact
    rw [exact, roundHalfEven_mul _ (Nat.pow_pos (by decide))]
  rw [roundQuotient_one, kept, if_pos below]

/-- Ones are counted exactly below two to the power of 53. -/
theorem roundQuotient_scale {ones : Nat} (small : ones < 2 ^ 53) :
    roundQuotient negative (ones * scale) 1 = .finite negative (ones * scale) := by
  rw [scale_eq_pow]
  exact roundQuotient_of_digits small (by decide)

theorem denotes_ofNat {n : Nat} (small : n < 2 ^ 53) : Denotes (ofNat n) n := by
  refine ⟨false, n * scale, roundQuotient_scale small, ?_⟩
  rw [signed, if_neg (by decide), Int.natCast_mul]

-- beyond it the successor of a count is rounded back to the count
example : ofNat (2 ^ 53 + 1) = ofNat (2 ^ 53) := by decide +kernel

/-- A number that denotes an integer is a zero when the integer is. -/
theorem Denotes.compare?_eq (one : Denotes first left) (two : Denotes second right) :
    compare? first second = some (compare left right) := by
  obtain ⟨negative, units, rfl, counted⟩ := one
  obtain ⟨otherNegative, otherUnits, rfl, otherCounted⟩ := two
  have positive : (0 : Int) < scale := Int.natCast_pos.2 scale_pos
  show some (compare (signed negative units) (signed otherNegative otherUnits)) = _
  rw [counted, otherCounted]
  congr 1
  generalize (scale : Int) = ones at positive
  rcases Int.lt_trichotomy left right with less | rfl | greater
  · rw [Std.compare_eq_lt.2 less, Std.compare_eq_lt.2 (Int.mul_lt_mul_of_pos_right less positive)]
  · rw [Std.compare_self, Std.compare_self]
  · rw [Std.compare_eq_gt.2 greater,
      Std.compare_eq_gt.2 (Int.mul_lt_mul_of_pos_right greater positive)]

theorem Denotes.same_eq (one : Denotes first left) (two : Denotes second right) :
    first.same second = decide (left = right) := by
  rw [same, one.compare?_eq two, Bool.eq_iff_iff]
  simp

theorem Denotes.less_eq (one : Denotes first left) (two : Denotes second right) :
    first.less second = decide (left < right) := by
  rw [less, one.compare?_eq two, Bool.eq_iff_iff]
  simp [Std.compare_eq_lt]

theorem Denotes.atMost_eq (one : Denotes first left) (two : Denotes second right) :
    first.atMost second = decide (left ≤ right) := by
  rw [atMost, one.less_eq two, one.same_eq two, Bool.eq_iff_iff, Bool.or_eq_true, decide_eq_true_eq,
    decide_eq_true_eq, decide_eq_true_eq]
  omega

theorem signed_neg {units : Nat} : signed (!negative) units = -signed negative units := by
  cases negative <;> simp [signed]

theorem signed_mul (negative : Bool) (units ones : Nat) :
    signed negative (units * ones) = signed negative units * ones := by
  cases negative with
  | false => exact Int.natCast_mul units ones
  | true =>
      show -((units * ones : Nat) : Int) = -(units : Int) * ones
      rw [Int.natCast_mul, Int.neg_mul]

theorem Denotes.neg (denotes : Denotes number value) : Denotes number.neg (-value) := by
  obtain ⟨negative, units, rfl, counted⟩ := denotes
  refine ⟨!negative, units, rfl, ?_⟩
  rw [signed_neg, counted, Int.neg_mul]

theorem signed_natAbs (total : Int) : signed (decide (total < 0)) total.natAbs = total := by
  unfold signed
  split <;> rename_i sign <;> simp at sign <;> omega

/-- The sum of two finite numbers is exact when it needs at most 53 binary digits. -/
theorem add_finite {units otherUnits exponent : Nat} {otherNegative : Bool} {total : Int}
    (sum : signed negative units + signed otherNegative otherUnits = total * 2 ^ exponent)
    (small : total.natAbs < 2 ^ 53) (finite : 53 + exponent ≤ 1024 + fractionBits) :
    ∃ sign rest, add (.finite negative units) (.finite otherNegative otherUnits) =
      .finite sign rest ∧ signed sign rest = total * 2 ^ exponent := by
  show ∃ sign rest, (if signed negative units + signed otherNegative otherUnits = 0 then
    Binary64.finite (negative && otherNegative) 0 else roundQuotient _ _ 1) = _ ∧ _
  split
  · rename_i isZero
    refine ⟨_, _, rfl, ?_⟩
    rw [← sum, isZero]
    simp [signed]
  · have magnitude : (signed negative units + signed otherNegative otherUnits).natAbs =
        total.natAbs * 2 ^ exponent := by
      rw [sum, Int.natAbs_mul, Int.natAbs_pow]
      rfl
    rw [magnitude, roundQuotient_of_digits small finite, ← magnitude]
    exact ⟨_, _, rfl, by rw [signed_natAbs, sum]⟩

theorem Denotes.add (one : Denotes first left) (two : Denotes second right)
    (small : (left + right).natAbs < 2 ^ 53) : Denotes (first.add second) (left + right) := by
  obtain ⟨negative, units, rfl, counted⟩ := one
  obtain ⟨otherNegative, otherUnits, rfl, otherCounted⟩ := two
  have sum : signed negative units + signed otherNegative otherUnits =
      (left + right) * 2 ^ fractionBits := by
    rw [counted, otherCounted, ← Int.add_mul, scale_eq_pow, Int.natCast_pow]
    rfl
  obtain ⟨sign, rest, added, total⟩ := add_finite sum small (by decide)
  refine ⟨sign, rest, added, ?_⟩
  rw [total, scale_eq_pow, Int.natCast_pow]
  rfl

theorem Denotes.sub (one : Denotes first left) (two : Denotes second right)
    (small : (left - right).natAbs < 2 ^ 53) : Denotes (first.sub second) (left - right) :=
  one.add two.neg small

/-- The units of a number that denotes an integer are as many ones as the integer has. -/
theorem Denotes.exists_natAbs (denotes : Denotes number value) :
    ∃ negative, number = .finite negative (value.natAbs * scale) ∧
      signed negative value.natAbs = value := by
  obtain ⟨negative, units, rfl, counted⟩ := denotes
  have positive : (0 : Int) < scale := Int.natCast_pos.2 scale_pos
  have magnitude : units = value.natAbs * scale := by
    rw [← Int.natAbs_natCast scale, ← Int.natAbs_mul, ← counted]
    cases negative <;> simp [signed]
  refine ⟨negative, by rw [magnitude], ?_⟩
  rw [magnitude] at counted
  cases negative with
  | false =>
      have same : (value.natAbs : Int) * scale = value * scale := by
        rw [← counted, signed, if_neg (by decide), Int.natCast_mul]
      exact Int.eq_of_mul_eq_mul_right (Int.ne_of_gt positive) same
  | true =>
      have same : -(value.natAbs : Int) * scale = value * scale := by
        rw [← counted, signed, if_pos rfl, Int.natCast_mul, Int.neg_mul]
      exact Int.eq_of_mul_eq_mul_right (Int.ne_of_gt positive) same

/-- The remainder of two integers has the sign of the dividend. -/
theorem Denotes.rem (one : Denotes first left) (two : Denotes second right) (nonzero : right ≠ 0) :
    Denotes (first.rem second) (left.tmod right) := by
  obtain ⟨negative, rfl, sign⟩ := one.exists_natAbs
  obtain ⟨otherNegative, rfl, -⟩ := two.exists_natAbs
  have divides : ¬right.natAbs * scale = 0 :=
    Nat.mul_ne_zero (Int.natAbs_ne_zero.2 nonzero) (Nat.ne_of_gt scale_pos)
  refine ⟨negative, left.natAbs % right.natAbs * scale, ?_, ?_⟩
  · rw [Binary64.rem, if_neg divides, Nat.mul_mod_mul_right]
  · have remainder : left.tmod right = signed negative (left.natAbs % right.natAbs) := by
      have unsigned : left.tmod right = left.tmod right.natAbs := by
        rcases Int.natAbs_eq right with same | same
        · rw [← same]
        · rw [same, Int.tmod_neg, Int.natAbs_neg, Int.natAbs_natCast]
      rw [unsigned]
      conv => lhs; rw [← sign]
      cases negative with
      | false => rfl
      | true => exact Int.neg_tmod _ _
    rw [remainder, signed_mul]

theorem div_le_roundHalfEven (numerator denominator : Nat) :
    numerator / denominator ≤ roundHalfEven numerator denominator := by
  unfold roundHalfEven
  dsimp only
  split
  · exact Nat.le_refl _
  · split
    · exact Nat.le_succ _
    · exact Nat.le_add_right _ _

/-- Rounding a count of units never goes below a power of two that it reaches. -/
theorem pow_le_nearest {units exponent : Nat} (reached : 2 ^ exponent ≤ units) :
    2 ^ exponent ≤ nearest units := by
  have nonzero : units ≠ 0 := by
    intro isZero
    rw [isZero] at reached
    exact absurd (Nat.pow_pos (by decide)) (Nat.not_lt.2 reached)
  have spare : gapExponent units ≤ units.log2 := Nat.sub_le _ _
  calc
    2 ^ exponent ≤ 2 ^ units.log2 :=
      Nat.pow_le_pow_right (by decide) ((Nat.le_log2 nonzero).2 reached)
    _ = 2 ^ (units.log2 - gapExponent units) * 2 ^ gapExponent units := by
      rw [← Nat.pow_add, Nat.sub_add_cancel spare]
    _ ≤ units / 2 ^ gapExponent units * 2 ^ gapExponent units := by
      apply Nat.mul_le_mul_right
      rw [Nat.le_div_iff_mul_le (Nat.pow_pos (by decide)), ← Nat.pow_add, Nat.sub_add_cancel spare]
      exact Nat.log2_self_le nonzero
    _ ≤ nearest units := Nat.mul_le_mul_right _ (div_le_roundHalfEven _ _)

/-- A natural number that is read is a count of units, rounded, unless it is too large. -/
theorem ofNat_eq (n : Nat) : ofNat n =
    if nearest (n * scale) < limit then .finite false (nearest (n * scale)) else .infinite false :=
  roundQuotient_one false (n * scale)

/-- A natural number that is read is never below the powers of two that it reaches. -/
theorem ofNat_of_le {n exponent : Nat} (reached : 2 ^ exponent ≤ n) :
    ofNat n = .infinite false ∨
      ∃ units, ofNat n = .finite false units ∧ 2 ^ exponent * scale ≤ units := by
  rw [ofNat_eq]
  split
  · refine .inr ⟨_, rfl, ?_⟩
    rw [scale_eq_pow, ← Nat.pow_add]
    apply pow_le_nearest
    rw [Nat.pow_add]
    exact Nat.mul_le_mul_right _ reached
  · exact .inl rfl

/-- A number that denotes an integer is not the same as a natural number beyond it, rounded or not. -/
theorem Denotes.same_ofNat_of_le (denotes : Denotes number value) {n exponent : Nat}
    (small : value < 2 ^ exponent) (reached : 2 ^ exponent ≤ n) : number.same (ofNat n) = false := by
  obtain ⟨negative, units, rfl, counted⟩ := denotes
  rcases ofNat_of_le reached with found | ⟨more, found, enough⟩
  · rw [found]
    rfl
  · have below : signed negative units < signed false more := by
      rw [counted]
      calc
        value * scale < 2 ^ exponent * scale :=
          Int.mul_lt_mul_of_pos_right small (Int.natCast_pos.2 scale_pos)
        _ ≤ signed false more := by
          rw [signed, if_neg (by decide)]
          exact_mod_cast enough
    rw [found]
    show (some (compare (signed negative units) (signed false more)) == some .eq) = false
    rw [Std.compare_eq_lt.2 below]
    rfl

/-- A count of less than two to the power of 53 is the same as a natural number just when it is it. -/
theorem Denotes.same_ofNat {count : Nat} (denotes : Denotes number count) (small : count < 2 ^ 53)
    (n : Nat) : number.same (ofNat n) = decide (count = n) := by
  by_cases exact : n < 2 ^ 53
  · rw [denotes.same_eq (denotes_ofNat exact)]
    exact decide_eq_decide.2 Int.natCast_inj
  · rw [denotes.same_ofNat_of_le (by exact_mod_cast small) (Nat.not_lt.1 exact)]
    exact (decide_eq_false (by omega)).symm

theorem compare?_swap (first second : Binary64) :
    compare? second first = (compare? first second).map Ordering.swap := by
  cases first with
  | nan => cases second <;> rfl
  | infinite negative => cases second <;> cases negative <;> first | rfl | (rename_i sign; cases sign <;> rfl)
  | finite negative units =>
      cases second with
      | nan => rfl
      | infinite negative => cases negative <;> rfl
      | finite otherNegative otherUnits => exact congrArg some Std.OrientedOrd.eq_swap

theorem same_comm (first second : Binary64) : first.same second = second.same first := by
  rw [same, same, compare?_swap first second]
  rcases compare? first second with _ | order
  · rfl
  · cases order <;> rfl

/-- A natural number is the same as zero just when it is zero, rounded or not. -/
theorem ofNat_same_zero (n : Nat) : (ofNat n).same (ofNat 0) = decide (n = 0) := by
  rw [same_comm, (denotes_ofNat (by decide)).same_ofNat (by decide)]
  exact decide_eq_decide.2 eq_comm

/-- An odd count of halves is cut down to the ones below it. -/
theorem odd_div_mod (ones : Nat) : (2 * ones + 1) * 2 ^ (fractionBits - 1) / scale = ones ∧
    (2 * ones + 1) * 2 ^ (fractionBits - 1) % scale ≠ 0 := by
  have positive : 0 < 2 ^ (fractionBits - 1) := Nat.pow_pos (by decide)
  rw [scale_eq]
  generalize 2 ^ (fractionBits - 1) = part at positive
  have split : (2 * ones + 1) * part = ones * (part * 2) + part := by
    rw [Nat.add_mul, Nat.one_mul, Nat.mul_comm 2 ones, Nat.mul_assoc, Nat.mul_comm 2 part]
  rw [split, Nat.mul_comm ones, Nat.mul_add_mod, Nat.mod_eq_of_lt (by omega)]
  refine ⟨?_, by omega⟩
  rw [Nat.mul_add_div (by omega), Nat.div_eq_of_lt (by omega), Nat.add_zero]

theorem floor_odd (sign : Bool) (ones : Nat) :
    floor (.finite sign ((2 * ones + 1) * 2 ^ (fractionBits - 1))) =
      .finite sign ((if sign then ones + 1 else ones) * scale) := by
  obtain ⟨whole, part⟩ := odd_div_mod ones
  rw [floor, whole, bne_iff_ne.2 part, Bool.and_true]

/-- An integer of at most 52 binary digits is rounded to itself. -/
theorem Denotes.round (denotes : Denotes number value) (small : value.natAbs < 2 ^ 52) :
    Denotes number.round value := by
  obtain ⟨negative, units, rfl, counted⟩ := denotes
  have positive : (0 : Int) < 2 ^ (fractionBits - 1) := Int.pow_pos (by decide)
  have sum : signed negative units + signed false (scale / 2) =
      (2 * value + 1) * 2 ^ (fractionBits - 1) := by
    rw [counted, half_scale, scale_eq, signed, if_neg (by decide)]
    push_cast
    rw [Int.add_mul, Int.one_mul, Int.mul_comm 2 value, Int.mul_assoc, Int.mul_comm 2]
  obtain ⟨sign, rest, added, total⟩ := add_finite sum (by omega) (by decide)
  rw [Binary64.round, half, added]
  cases sign with
  | false =>
      have above : 0 ≤ 2 * value + 1 := by
        apply Int.not_lt.1
        intro below
        have less := Int.mul_neg_of_neg_of_pos below positive
        rw [← total, signed, if_neg (by decide)] at less
        exact absurd less (Int.not_lt.2 (Int.natCast_nonneg rest))
      obtain ⟨ones, rfl⟩ := Int.eq_ofNat_of_zero_le (by omega : 0 ≤ value)
      have units : rest = (2 * ones + 1) * 2 ^ (fractionBits - 1) := by
        rw [signed, if_neg (by decide)] at total
        generalize fractionBits - 1 = bits at total ⊢
        exact_mod_cast total
      rw [units, floor_odd, if_neg Bool.false_ne_true]
      exact ⟨_, _, rfl, signed_mul false ones scale⟩
  | true =>
      have below : 2 * value + 1 ≤ 0 := by
        apply Int.not_lt.1
        intro above
        have more := Int.mul_pos above positive
        rw [← total, signed, if_pos rfl] at more
        omega
      obtain ⟨ones, shape⟩ := Int.eq_ofNat_of_zero_le (by omega : 0 ≤ -value - 1)
      obtain rfl : value = -(ones + 1 : Int) := by omega
      have units : rest = (2 * ones + 1) * 2 ^ (fractionBits - 1) := by
        have odd : (2 * -(ones + 1 : Int) + 1) = -(2 * ones + 1 : Int) := by omega
        rw [signed, if_pos rfl, odd, Int.neg_mul] at total
        generalize fractionBits - 1 = bits at total ⊢
        exact_mod_cast Int.neg_inj.1 total
      rw [units, floor_odd, if_pos rfl]
      exact ⟨_, _, rfl, signed_mul true (ones + 1) scale⟩

end ElementQuery.Binary64

/-
This file shows that reading natural numbers as binary64 numbers keeps their order, rounded or not, and
what becomes of numbers that are too large.
-/

import ElementQuery.Proofs.Number.Whole

namespace ElementQuery.Binary64

variable {number other : Binary64} {n m numerator larger denominator units : Nat}

theorem roundHalfEven_le (numerator denominator : Nat) :
    roundHalfEven numerator denominator ≤ numerator / denominator + 1 := by
  unfold roundHalfEven
  dsimp only
  split
  · exact Nat.le_succ _
  · split
    · exact Nat.le_refl _
    · omega

/-- Of two quotients with one denominator, the larger one is not rounded to less. -/
theorem roundHalfEven_mono (within : numerator ≤ larger) :
    roundHalfEven numerator denominator ≤ roundHalfEven larger denominator := by
  have quotients : numerator / denominator ≤ larger / denominator := Nat.div_le_div_right within
  rcases Nat.lt_or_eq_of_le quotients with apart | same
  · calc
      roundHalfEven numerator denominator ≤ numerator / denominator + 1 := roundHalfEven_le _ _
      _ ≤ larger / denominator := apart
      _ ≤ roundHalfEven larger denominator := div_le_roundHalfEven _ _
  · have rest : numerator % denominator ≤ larger % denominator := by
      have whole := Nat.div_add_mod numerator denominator
      have more := Nat.div_add_mod larger denominator
      rw [same] at whole
      omega
    by_cases low : 2 * (numerator % denominator) < denominator
    · have down : roundHalfEven numerator denominator = numerator / denominator := if_pos low
      rw [down, same]
      exact div_le_roundHalfEven _ _
    · by_cases high : denominator < 2 * (larger % denominator)
      · have up : roundHalfEven larger denominator = larger / denominator + 1 := by
          unfold roundHalfEven
          rw [if_neg (Nat.lt_asymm high), if_pos high]
        rw [up, ← same]
        exact roundHalfEven_le _ _
      · have tie : numerator % denominator = larger % denominator := by omega
        have equal : roundHalfEven numerator denominator = roundHalfEven larger denominator := by
          unfold roundHalfEven
          rw [same, tie]
        exact Nat.le_of_eq equal

theorem gapExponent_mono (within : units ≤ m) : gapExponent units ≤ gapExponent m := by
  have digits : units.log2 ≤ m.log2 := by
    by_cases isZero : units = 0
    · rw [isZero]
      exact Nat.zero_le _
    · exact (Nat.le_log2 (by omega)).2 (Nat.le_trans (Nat.log2_self_le isZero) within)
  unfold gapExponent
  omega

/-- Rounding a count of units does not go beyond the next power of two. -/
theorem nearest_le_pow (units : Nat) : nearest units ≤ 2 ^ (units.log2 + 1) := by
  have spare : gapExponent units ≤ units.log2 + 1 := by
    unfold gapExponent
    omega
  have whole : 2 ^ (units.log2 + 1) =
      2 ^ (units.log2 + 1 - gapExponent units) * 2 ^ gapExponent units := by
    rw [← Nat.pow_add, Nat.sub_add_cancel spare]
  have below : units / 2 ^ gapExponent units < 2 ^ (units.log2 + 1 - gapExponent units) := by
    rw [Nat.div_lt_iff_lt_mul (Nat.pow_pos (by decide)), ← whole]
    exact Nat.lt_log2_self
  rw [whole]
  exact Nat.mul_le_mul_right _ (Nat.le_trans (roundHalfEven_le _ _) below)

/-- Rounding keeps the order of counts of units: between powers of two the gaps are the same, and no count
is rounded across a power of two. -/
theorem nearest_mono (within : units ≤ m) : nearest units ≤ nearest m := by
  rcases Nat.lt_or_eq_of_le (gapExponent_mono within) with wider | same
  · have digits : units.log2 + 1 ≤ m.log2 := by
      unfold gapExponent at wider
      omega
    have nonzero : m ≠ 0 := by
      rintro rfl
      exact absurd digits (by simp)
    calc
      nearest units ≤ 2 ^ (units.log2 + 1) := nearest_le_pow units
      _ ≤ nearest m := pow_le_nearest ((Nat.le_log2 nonzero).1 digits)
  · unfold nearest
    rw [same]
    exact Nat.mul_le_mul_right _ (roundHalfEven_mono within)

/-- A natural number is too large when it is read as infinity. -/
def Overflows (n : Nat) : Prop := limit ≤ nearest (n * scale)

theorem ofNat_eq_infinite (large : Overflows n) : ofNat n = .infinite false := by
  rw [ofNat_eq, if_neg (Nat.not_lt.2 large)]

theorem ofNat_eq_finite (within : ¬Overflows n) : ofNat n = .finite false (nearest (n * scale)) := by
  rw [ofNat_eq, if_pos (Nat.not_le.1 within)]

theorem Overflows.mono (large : Overflows n) (within : n ≤ m) : Overflows m :=
  Nat.le_trans large (nearest_mono (Nat.mul_le_mul_right _ within))

theorem atMost_finite {negative other : Bool} {units others : Nat} :
    (finite negative units).atMost (finite other others) =
      decide (signed negative units ≤ signed other others) := by
  show (some (compare (signed negative units) (signed other others)) == some .lt ||
    some (compare (signed negative units) (signed other others)) == some .eq) = _
  generalize signed negative units = left
  generalize signed other others = right
  rw [Bool.eq_iff_iff]
  simp [Std.compare_eq_lt]
  omega

/-- What is not above a natural number is not above a larger one. -/
theorem atMost_ofNat_mono (below : number.atMost (ofNat n) = true) (within : n ≤ m)
    (finite : ¬Overflows m) : number.atMost (ofNat m) = true := by
  rw [ofNat_eq_finite fun large => finite (large.mono within)] at below
  rw [ofNat_eq_finite finite]
  have ordered : nearest (n * scale) ≤ nearest (m * scale) :=
    nearest_mono (Nat.mul_le_mul_right _ within)
  generalize nearest (n * scale) = fewer, nearest (m * scale) = more at below ordered ⊢
  cases number with
  | nan => cases below
  | infinite negative =>
      cases negative with
      | false => cases below
      | true => rfl
  | finite negative units =>
      rw [atMost_finite, decide_eq_true_eq] at below ⊢
      exact Int.le_trans below (Int.ofNat_le.2 ordered)

/-- A number is beyond all others, or none. -/
def Boundless (number : Binary64) : Prop := number = .infinite false ∨ number = .nan

theorem Boundless.add (boundless : number.Boundless) : (number.add other).Boundless := by
  rcases boundless with rfl | rfl
  · cases other with
    | nan => exact .inr rfl
    | finite negative units => exact .inl rfl
    | infinite negative =>
        cases negative with
        | false => exact .inl rfl
        | true => exact .inr rfl
  · cases other <;> exact .inr rfl

theorem Boundless.floor (boundless : number.Boundless) : number.floor.Boundless := by
  rcases boundless with rfl | rfl
  · exact .inl rfl
  · exact .inr rfl

theorem finite_less_infinite {negative : Bool} {units : Nat} :
    (finite negative units).less (.infinite false) = true :=
  rfl

theorem less_nan (number : Binary64) : number.less .nan = false := by
  cases number <;> rfl

theorem boundless_add_infinite (number : Binary64) : (number.add (.infinite false)).Boundless := by
  cases number with
  | nan => exact .inr rfl
  | finite negative units => exact .inl rfl
  | infinite negative =>
      cases negative with
      | false => exact .inl rfl
      | true => exact .inr rfl

/-- Nothing lies between what is boundless and an end that is boundless. -/
theorem not_between_boundless (boundless : number.Boundless) (n : Nat)
    (reached : number.atMost (ofNat n) = true) {finish : Binary64} (last : finish.Boundless) :
    (ofNat n).less finish = false := by
  rcases boundless with rfl | rfl
  · by_cases large : Overflows n
    · rw [ofNat_eq_infinite large]
      rcases last with rfl | rfl <;> rfl
    · rw [ofNat_eq_finite large] at reached
      cases reached
  · cases ofNat n <;> cases reached

end ElementQuery.Binary64

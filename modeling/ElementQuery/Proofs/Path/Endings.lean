/-
This file says what is cut off from the end of a text by the place that is computed for it: always an
ending of the text, and the one that has the wanted length as long as lengths are exact.
-/

import ElementQuery.Proofs.Number.Order
import ElementQuery.Proofs.Path.Calls

namespace ElementQuery.Path

variable {document : Document} {level : Level} {text : String} {string : NodeId → String}

section Places

variable {keeps wanted : Nat → Bool} {text : List Char} {start : Nat}

/-- The characters at the places that are kept. -/
def keptFrom (keeps : Nat → Bool) (start : Nat) (text : List Char) : List Char :=
  (text.zipIdx start).filterMap fun (c, place) => if keeps place then some c else none

theorem keptFrom_congr (same : ∀ place, start ≤ place → place < start + text.length →
    keeps place = wanted place) : keptFrom keeps start text = keptFrom wanted start text := by
  apply List.filterMap_congr
  intro pair member
  dsimp only
  have inside := List.snd_lt_of_mem_zipIdx member
  rw [same pair.2 (List.le_snd_of_mem_zipIdx member) (by omega)]

theorem keptFrom_cons_of_neg {c : Char} (lost : keeps start = false) :
    keptFrom keeps start (c :: text) = keptFrom keeps (start + 1) text := by
  unfold keptFrom
  rw [List.zipIdx_cons, List.filterMap_cons_none (by simp [lost])]

theorem keptFrom_of_all (all : ∀ place, start ≤ place → place < start + text.length →
    keeps place = true) : keptFrom keeps start text = text := by
  rw [@keptFrom_congr keeps (fun _ => true) text start all]
  show (text.zipIdx start).filterMap (some ∘ Prod.fst) = text
  rw [List.filterMap_eq_map, List.zipIdx_map_fst]

/-- What is kept from some place on is an ending. -/
theorem keptFrom_suffix (onwards : ∀ place later, place ≤ later → later < start + text.length →
    keeps place = true → keeps later = true) : keptFrom keeps start text <:+ text := by
  induction text generalizing start with
  | nil => exact List.suffix_refl _
  | cons c rest inductionHypothesis =>
      cases first : keeps start with
      | true =>
          have whole : keptFrom keeps start (c :: rest) = c :: rest :=
            keptFrom_of_all fun place after before => onwards start place after before first
          exact ⟨[], whole⟩
      | false =>
          rw [keptFrom_cons_of_neg first]
          refine (inductionHypothesis fun place later within before => ?_).trans
            (List.suffix_cons c rest)
          exact onwards place later within (by simp only [List.length_cons]; omega)

theorem keptFrom_eq_drop (start before : Nat) :
    keptFrom (fun place => decide (start + before ≤ place)) start text = text.drop before := by
  induction before generalizing text start with
  | zero => exact keptFrom_of_all fun place after _ => decide_eq_true after
  | succ before inductionHypothesis =>
      cases text with
      | nil => rfl
      | cons c rest =>
          rw [keptFrom_cons_of_neg (by simp), List.drop_succ_cons, ← inductionHypothesis]
          apply keptFrom_congr
          intro place _ _
          exact decide_eq_decide.2 (by omega)

end Places

/-- Without an end, all places from the rounded start on are kept that lie before infinity. -/
theorem substring_eq_keptFrom (text : List Char) (start : Binary64) :
    substring text start (.infinite false) = keptFrom (fun place =>
      start.round.atMost (.ofNat place) &&
        (Binary64.ofNat place).less (start.round.add (.infinite false))) 1 text :=
  rfl

/-- From a place on, a text without an end loses the characters before the place. -/
theorem substring_eq_drop {text : List Char} {number : Binary64} {before : Nat}
    (denotes : number.Denotes (before + 1)) (within : before < text.length)
    (small : text.length < 2 ^ 52) :
    substring text number (.infinite false) = text.drop before := by
  have start : number.round.Denotes (before + 1) := denotes.round (by omega)
  rw [← keptFrom_eq_drop 1 before, substring_eq_keptFrom]
  apply keptFrom_congr
  intro place _ inside
  have position : (Binary64.ofNat place).Denotes place := Binary64.denotes_ofNat (by omega)
  have earlier : (Binary64.ofNat place).less
      (number.round.add (.infinite false)) = true := by
    obtain ⟨negative, units, finite, -⟩ := position
    obtain ⟨sign, ones, found, -⟩ := start
    rw [finite, found]
    rfl
  rw [start.atMost_eq position, earlier, Bool.and_true]
  exact decide_eq_decide.2 (by omega)

/-- Where the places of a text are finite numbers, a text without an end is an ending. -/
theorem substring_suffix {text : List Char} (finite : ¬Binary64.Overflows text.length)
    (start : Binary64) : substring text start (.infinite false) <:+ text := by
  rw [substring_eq_keptFrom]
  apply keptFrom_suffix
  intro place later within inside kept
  obtain ⟨reached, earlier⟩ := Bool.and_eq_true_iff.1 kept
  have known : ¬Binary64.Overflows later := fun large => finite (large.mono (by omega))
  rw [Bool.and_eq_true_iff]
  refine ⟨Binary64.atMost_ofNat_mono reached within known, ?_⟩
  rcases Binary64.boundless_add_infinite start.round with endless | none
  · rw [endless, Binary64.ofNat_eq_finite known]
    exact Binary64.finite_less_infinite
  · rw [none, Binary64.less_nan] at earlier
    cases earlier

/-- The characters of a text from the place on at which the ending of a wanted length begins. The place is
computed with numbers. -/
def cutEnding (text : List Char) (length : Nat) : List Char :=
  substring text (((Binary64.ofNat text.length).sub (.ofNat length)).add (.ofNat 1))
    (.infinite false)

/-- What is cut off from the end is an ending, rounded or not. -/
theorem cutEnding_suffix (text : List Char) (length : Nat) : cutEnding text length <:+ text := by
  by_cases large : Binary64.Overflows text.length
  · unfold cutEnding
    rw [substring_eq_keptFrom]
    apply keptFrom_suffix
    intro place later _ _ kept
    obtain ⟨reached, earlier⟩ := Bool.and_eq_true_iff.1 kept
    have endless : (Binary64.ofNat text.length).Boundless := .inl (Binary64.ofNat_eq_infinite large)
    rw [Binary64.not_between_boundless endless.add.add.add.floor place reached
      (Binary64.boundless_add_infinite _)] at earlier
    cases earlier
  · exact substring_suffix large _

/-- A text ends with another one when its last characters, as many as the other one has, are the other
one. -/
theorem cutEnding_eq_iff {text ending : List Char} (nonempty : ending ≠ [])
    (small : ending.length ≤ text.length → text.length < 2 ^ 52) :
    cutEnding text ending.length = ending ↔ ending <:+ text := by
  refine ⟨fun same => same ▸ cutEnding_suffix text _, fun suffix => ?_⟩
  have positive : 0 < ending.length := List.length_pos_iff.2 nonempty
  have fits := suffix.length_le
  have bounded := small fits
  have denotes : (((Binary64.ofNat text.length).sub (.ofNat ending.length)).add
      (.ofNat 1)).Denotes ((text.length - ending.length : Nat) + 1) := by
    have whole := ((Binary64.denotes_ofNat (by omega)).sub (Binary64.denotes_ofNat (by omega))
      (by omega : ((text.length : Int) - ending.length).natAbs < 2 ^ 53)).add
      (Binary64.denotes_ofNat (by decide : 1 < 2 ^ 53)) (by omega)
    rw [Int.ofNat_sub fits]
    exact whole
  rw [cutEnding, substring_eq_drop denotes (by omega) bounded]
  exact (List.suffix_iff_eq_drop.1 suffix).symm

/-- The place from which an ending of a given length is cut off is counted from the length of the text. -/
theorem Tells.endPlace (one : Tells document .or text string) (length : Nat) :
    Means document .additive ("string-length(" ++ text ++ ")" ++ " - " ++ toString length ++ " + " ++ "1")
      fun id value => value = .number
        (((Binary64.ofNat (string id).toList.length).sub (.ofNat length)).add (.ofNat 1)) := by
  have difference : Means document .additive ("string-length(" ++ text ++ ")" ++ " - " ++
      toString length) fun id value => value = .number
      ((Binary64.ofNat (string id).toList.length).sub (.ofNat length)) := by
    apply Means.operateValues rfl rfl Sign.minus (by decide)
      (one.stringLength.loosen (by decide : Level.depth .additive ≤ _))
      ((Means.number length).loosen (by decide : Level.depth .multiplicative ≤ _))
    intro id _
    rfl
  apply Means.operateValues rfl rfl Sign.plus (by decide) difference
    ((Means.number 1).loosen (by decide : Level.depth .multiplicative ≤ _))
  intro id _
  rfl

/-- From there on, the ending is cut off. -/
theorem Tells.ending (one : Tells document .or text string) (length : Nat) :
    Means document .primary ("substring(" ++ text ++ ", " ++ ("string-length(" ++ text ++ ")" ++ " - " ++
      toString length ++ " + " ++ "1") ++ ")") fun id value =>
      value = .text (String.ofList (cutEnding (string id).toList length)) := by
  apply Means.callTwo (by decide) (by decide) (rfl : Function.ofName? "substring" = _) rfl one
    ((one.endPlace length).loosen (by decide))
  intro context value operand views _ front same
  refine ⟨_, rfl, ?_⟩
  rw [same, ← front, ← views.same]
  rfl

/-- The expression for the end of a text compares what is cut off there. -/
theorem Tells.endEqual {literal ending : String} (one : Tells document .or text string)
    (two : Means document .primary literal fun _ value => value = .text ending) :
    Meets document .equality ("substring(" ++ text ++ ", string-length(" ++ text ++ ") - " ++
      toString ending.length ++ " + 1) = " ++ literal) fun id =>
      cutEnding (string id).toList ending.length == ending.toList := by
  have shape : "substring(" ++ text ++ ", string-length(" ++ text ++ ") - " ++
      toString ending.length ++ " + 1) = " ++ literal = "substring(" ++ text ++ ", " ++
      ("string-length(" ++ text ++ ")" ++ " - " ++ toString ending.length ++ " + " ++ "1") ++
      ")" ++ " = " ++ literal := by
    apply String.toList_inj.1
    simp
  rw [shape]
  apply Means.operateValues rfl rfl Sign.equal (by decide)
    ((one.ending ending.length).loosen (by decide : Level.depth .equality ≤ _)) (two.loosen (by decide))
  intro id element
  constructor
  · rfl
  · show (String.ofList _ == ending) = _
    rw [Bool.eq_iff_iff, beq_iff_eq, beq_iff_eq, ← String.toList_inj, String.toList_ofList]

end ElementQuery.Path

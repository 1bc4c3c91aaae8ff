/-
This file says what the numbers in a phrase mean as long as they are counts of fewer than 53 binary
digits.
-/

import ElementQuery.Proofs.Path.Calls
import ElementQuery.Proofs.Path.Integers

namespace ElementQuery.Path

variable {document : Document} {level : Level} {text left right : String}
  {places : NodeId → List NodeId} {count first second : NodeId → Int}

theorem Counts.loosen {wanted : Level} (counts : Counts document level text count)
    (within : wanted.depth ≤ level.depth) : Counts document wanted text count :=
  Means.loosen counts within

theorem Counts.natural {n : Nat} (small : n < 2 ^ 53) :
    Counts document .primary (toString n) fun _ => n := by
  apply (Means.number n).value
  intro id _
  exact ⟨_, rfl, Binary64.denotes_ofNat small⟩

theorem Counts.plus (one : Counts document .additive left first)
    (two : Counts document .multiplicative right second)
    (small : ∀ id, document.isElement id = true → (first id + second id).natAbs < 2 ^ 53) :
    Counts document .additive (left ++ " + " ++ right) fun id => first id + second id := by
  apply Means.operate rfl rfl Sign.plus (by decide) one two
  intro id value other element front back
  obtain ⟨number, rfl, denotes⟩ := front
  obtain ⟨operand, rfl, further⟩ := back
  exact ⟨_, rfl, denotes.add further (small id element)⟩

/-- Numbers are compared as the integers that they denote. -/
theorem compareValues_of_denotes {number operand : Binary64} {value other : Int} {operator : Operator}
    {holds : Bool} (one : number.Denotes value) (two : operand.Denotes other)
    (compared : operator.compare? value other = some holds) :
    compareValues document operator (.number number) (.number operand) = holds := by
  have same : scalarsEqual document (.number number) (.number operand) = decide (value = other) :=
    one.same_eq two
  cases operator with
  | equal => exact same.trans (Option.some.inj compared)
  | notEqual =>
      show (!scalarsEqual document (.number number) (.number operand)) = holds
      rw [same, ← Option.some.inj compared, decide_not]
  | less => exact (one.less_eq two).trans (Option.some.inj compared)
  | atMost => exact (one.atMost_eq two).trans (Option.some.inj compared)
  | greater => exact (two.less_eq one).trans (Option.some.inj compared)
  | atLeast => exact (two.atMost_eq one).trans (Option.some.inj compared)
  | or | and | add | subtract | multiply | divide | modulo => cases compared

/-- Evaluation is exact for integers of 53 binary digits. -/
def Reckoning.evaluation (context : Context) : Reckoning where
  amounts expression value :=
    ∃ number, evaluate context expression = .ok (.number number) ∧ number.Denotes value
  decides expression holds := evaluate context expression = .ok (.boolean holds)
  ofInt := by
    intro value small
    cases value with
    | ofNat n => exact ⟨_, rfl, Binary64.denotes_ofNat small⟩
    | negSucc n => exact ⟨_, rfl, (Binary64.denotes_ofNat small).neg⟩
  subtract := by
    rintro left right first second ⟨number, one, denotes⟩ ⟨operand, two, further⟩ small
    exact ⟨_, evaluate_binary (by decide) one two, denotes.sub further small⟩
  modulo := by
    rintro left right first second ⟨number, one, denotes⟩ ⟨operand, two, further⟩ nonzero
    exact ⟨_, evaluate_binary (by decide) one two, denotes.rem further nonzero⟩
  compare := by
    rintro operator left right first second holds ⟨number, one, denotes⟩ ⟨operand, two, further⟩
    intro compared
    rw [evaluate_binary (Operator.eager_of_compare? compared) one two, applyOperator,
      Operator.isArithmetic_of_compare? compared, if_neg Bool.false_ne_true,
      compareValues_of_denotes denotes further compared]
  and := by
    intro left right first second one two
    exact evaluate_and one two

/-- A count is compared with a natural number of any size. -/
theorem Counts.equalNatural {index : NodeId → Nat} (one : Counts document .equality left fun id => index id)
    (small : ∀ id, document.isElement id = true → index id < 2 ^ 53) (n : Nat) :
    Meets document .equality (left ++ " = " ++ toString n) fun id => decide (index id = n) := by
  apply Means.operate rfl rfl Sign.equal (by decide) one
    (Means.loosen (Means.number n) (by decide : Level.depth .relational ≤ _))
  intro id value other element counted same
  obtain ⟨number, rfl, denotes⟩ := counted
  rw [same]
  exact ⟨rfl, denotes.same_ofNat (small id element) n⟩

/-- The places to which a step leads are none when their count is zero, however many they are. -/
theorem Leads.countZero (leads : Leads document text places)
    (distinct : ∀ id, document.isElement id = true → (places id).Nodup) :
    Meets document .equality ("count(" ++ text ++ ") = 0") fun id => (places id).isEmpty := by
  have compared : Meets document .equality ("count(" ++ text ++ ")" ++ " = " ++ toString 0)
      fun id => (places id).isEmpty := by
    apply Means.operateValues rfl rfl Sign.equal (by decide)
      ((leads.counted distinct).loosen (by decide : Level.depth .equality ≤ _))
      ((Means.number 0).loosen (by decide : Level.depth .relational ≤ _))
    intro id _
    constructor
    · rfl
    · apply (Binary64.ofNat_same_zero _).trans
      cases shape : places id <;> simp [shape]
  have shape : "count(" ++ text ++ ") = 0" = "count(" ++ text ++ ")" ++ " = " ++ toString 0 := by
    apply String.toList_inj.1
    simp
  rw [shape]
  exact compared

/-- The count of the places to which a step leads. -/
theorem Leads.counts (leads : Leads document text places)
    (distinct : ∀ id, document.isElement id = true → (places id).Nodup)
    (small : ∀ id, document.isElement id = true → (places id).length < 2 ^ 53) :
    Counts document .primary ("count(" ++ text ++ ")") fun id => (places id).length := by
  apply (leads.counted distinct).value
  intro id element
  exact ⟨_, rfl, Binary64.denotes_ofNat (small id element)⟩

theorem keepFrom_beyond {test : Nat → NodeId → Except Error Bool}
    (each : ∀ position id, test position id = .ok (decide (position = 1))) (nodes : List NodeId)
    (position : Nat) : keepFrom test (position + 2) nodes = .ok [] := by
  induction nodes generalizing position with
  | nil => rfl
  | cons id rest inductionHypothesis =>
      rw [keepFrom, each, inductionHypothesis (position + 1)]
      rfl

/-- Only the first node is at the first position. -/
theorem keepFrom_first {test : Nat → NodeId → Except Error Bool}
    (each : ∀ position id, test position id = .ok (decide (position = 1))) (nodes : List NodeId) :
    keepFrom test 1 nodes = .ok nodes.head?.toList := by
  cases nodes with
  | nil => rfl
  | cons id rest =>
      rw [keepFrom, each, keepFrom_beyond each rest 0]
      rfl

/-- The number one in brackets keeps the first node on an axis. -/
theorem Leads.nearest {axis : Axis} {test : NodeTest} (along : axis ≠ .attribute)
    (tested : TestPhrase text test) :
    Leads document (axis.name ++ "::" ++ text ++ "[1]") fun id =>
      (candidates document axis test id).head?.toList := by
  have phrases : ∀ predicate ∈ [(toString 1, Expression.number (.ofNat 1))],
      Phrase .or predicate.1 predicate.2 := by
    intro predicate member
    rw [List.mem_singleton.1 member]
    exact (Phrase.number 1).loosen (by decide)
  have shape : String.join ([(toString 1, Expression.number (.ofNat 1))].map fun predicate =>
      "[" ++ predicate.1 ++ "]") = "[1]" := by
    show String.join ["[" ++ toString 1 ++ "]"] = "[1]"
    decide
  have phrase := StepPhrase.axis axis tested _ phrases
  rw [shape] at phrase
  refine ⟨_, phrase, fun context views nodes => ?_⟩
  have found : ∀ id, filterAll context [Expression.number (.ofNat 1)]
      (candidates context.document axis test id) =
        .ok (candidates document axis test id).head?.toList := by
    intro id
    rw [views.same, filterAll, keepFrom_first]
    · rfl
    · intro position id
      show Except.ok ((Binary64.ofNat position).same (.ofNat 1)) = .ok (decide (position = 1))
      rw [Binary64.same_comm, (Binary64.denotes_ofNat (by decide)).same_ofNat (by decide)]
      exact congrArg Except.ok (decide_eq_decide.2 eq_comm)
  show followStep context nodes ⟨axis, test, [Expression.number (.ofNat 1)]⟩ = _
  rw [followStep, if_neg along, gather_eq_flatMap found]
  rfl

end ElementQuery.Path

/-
This file says which phrases have a value at every element of a document and which are tests there, whatever
the value is and however numbers are rounded.
-/

import ElementQuery.Proofs.Path.Calls
import ElementQuery.Proofs.Path.Integers
import Mathlib.Tactic.Choose

namespace ElementQuery.Path

/-- At every element of a document an expression has one value in all contexts. -/
def Settled (document : Document) (expression : Expression) : Prop :=
  ∃ given : NodeId → Value, ∀ context : Context, context.Views document →
    document.isElement context.node = true → evaluate context expression = .ok (given context.node)

/-- At every element of a document an expression is true in all contexts or false in all. -/
def Judged (document : Document) (expression : Expression) : Prop :=
  ∃ holds : NodeId → Bool, ∀ context : Context, context.Views document →
    document.isElement context.node = true →
    evaluate context expression = .ok (.boolean (holds context.node))

/-- At every element of a document a phrase has one value in all contexts. -/
def HasValue (document : Document) (level : Level) (text : String) : Prop :=
  ∃ given : NodeId → Value, Means document level text fun id value => value = given id

/-- As a predicate, a phrase keeps some of the elements of a document. -/
def IsTest (document : Document) (level : Level) (text : String) : Prop :=
  ∃ holds, Meets document level text holds

variable {document : Document} {level below wanted : Level} {text left right sign : String}
  {token : Token} {operator : Operator} {first second : Expression}
  {operators : Token → Option (Expression → Expression → Expression)}

theorem Settled.ofInt (value : Int) : Settled document (.ofInt value) := by
  cases value with
  | ofNat n => exact ⟨fun _ => .number (.ofNat n), fun _ _ _ => rfl⟩
  | negSucc n => exact ⟨fun _ => .number (Binary64.ofNat (n + 1)).neg, fun _ _ _ => rfl⟩

theorem Settled.operate (eager : operator ≠ .or ∧ operator ≠ .and) (one : Settled document first)
    (two : Settled document second) : Settled document (.binary operator first second) := by
  obtain ⟨given, evaluates⟩ := one
  obtain ⟨other, follows⟩ := two
  refine ⟨fun id => applyOperator document operator (given id) (other id), ?_⟩
  intro context views element
  rw [evaluate_binary eager (evaluates context views element) (follows context views element),
    views.same]

theorem Settled.compare (compares : operator.isArithmetic = false)
    (eager : operator ≠ .or ∧ operator ≠ .and) (one : Settled document first)
    (two : Settled document second) : Judged document (.binary operator first second) := by
  obtain ⟨given, evaluates⟩ := one
  obtain ⟨other, follows⟩ := two
  refine ⟨fun id => compareValues document operator (given id) (other id), ?_⟩
  intro context views element
  rw [evaluate_binary eager (evaluates context views element) (follows context views element),
    views.same, applyOperator, compares, if_neg Bool.false_ne_true]

theorem Judged.and (one : Judged document first) (two : Judged document second) :
    Judged document (.binary .and first second) := by
  obtain ⟨holds, evaluates⟩ := one
  obtain ⟨also, follows⟩ := two
  exact ⟨fun id => holds id && also id, fun context views element =>
    evaluate_and (evaluates context views element) (follows context views element)⟩

theorem Judged.isTest (judged : Judged document first) (phrase : Phrase level text first) :
    IsTest document level text := by
  obtain ⟨holds, evaluates⟩ := judged
  exact ⟨holds, first, phrase, fun context views element =>
    ⟨_, evaluates context views element, rfl, rfl⟩⟩

namespace HasValue

theorem loosen (known : HasValue document level text) (within : wanted.depth ≤ level.depth) :
    HasValue document wanted text := by
  obtain ⟨given, means⟩ := known
  exact ⟨given, means.loosen within⟩

theorem natural (n : Nat) : HasValue document .primary (toString n) := ⟨_, Means.number n⟩

/-- What a phrase with one value is read as is settled. -/
theorem exists_settled (known : HasValue document level text) :
    ∃ expression, Phrase level text expression ∧ Settled document expression := by
  obtain ⟨given, expression, phrase, evaluates⟩ := known
  refine ⟨expression, phrase, given, fun context views element => ?_⟩
  obtain ⟨value, evaluated, rfl⟩ := evaluates context views element
  exact evaluated

/-- Two values that are known are joined by an operator that evaluates both. -/
theorem operate (joins : level.operators? = some (operators, below))
    (known : operators token = some (.binary operator)) (signs : Sign sign token)
    (eager : operator ≠ .or ∧ operator ≠ .and) (one : HasValue document level left)
    (two : HasValue document below right) : HasValue document level (left ++ sign ++ right) := by
  obtain ⟨given, means⟩ := one
  obtain ⟨other, further⟩ := two
  exact ⟨_, Means.operateValues joins known signs eager means further fun _ _ => rfl⟩

theorem equal (one : HasValue document .equality left) (two : HasValue document .relational right) :
    IsTest document .equality (left ++ " = " ++ right) := by
  obtain ⟨expression, phrase, settled⟩ := one.exists_settled
  obtain ⟨operand, further, fixed⟩ := two.exists_settled
  exact (settled.compare rfl (by decide) fixed).isTest
    (Phrase.binary rfl rfl Sign.equal phrase further)

end HasValue

/-- The count of the places to which a step leads. -/
theorem Leads.countValue {places : NodeId → List NodeId} (leads : Leads document text places)
    (distinct : ∀ id, document.isElement id = true → (places id).Nodup) :
    HasValue document .primary ("count(" ++ text ++ ")") :=
  ⟨_, leads.counted distinct⟩

namespace IsTest

theorem loosen (test : IsTest document level text) (within : wanted.depth ≤ level.depth) :
    IsTest document wanted text := by
  obtain ⟨holds, meets⟩ := test
  exact ⟨holds, meets.loosen within⟩

theorem and (one : IsTest document .and left) (two : IsTest document .equality right) :
    IsTest document .and (left ++ " and " ++ right) := by
  obtain ⟨first, meets⟩ := one
  obtain ⟨second, further⟩ := two
  exact ⟨_, meets.and further⟩

theorem not (test : IsTest document .or text) : IsTest document .primary ("not(" ++ text ++ ")") := by
  obtain ⟨holds, meets⟩ := test
  exact ⟨_, meets.not⟩

end IsTest

/-- Texts that are tests hold each of some elements. -/
theorem exists_meets {texts : List String} (each : ∀ text ∈ texts, IsTest document level text) :
    ∃ tests : List (String × (NodeId → Bool)), tests.map Prod.fst = texts ∧
      ∀ test ∈ tests, Meets document level test.1 test.2 := by
  choose! holds meets using each
  refine ⟨texts.map fun text => (text, holds text), by simp [Function.comp_def], ?_⟩
  intro test member
  obtain ⟨text, known, rfl⟩ := List.mem_map.1 member
  exact meets text known

end ElementQuery.Path

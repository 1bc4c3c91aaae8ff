/-
This file shows that a compound of the common language means the same to both readers: one element meets all
conditions of the one exactly when it meets the step of the other.
-/

import ElementQuery.Proofs.Common.Counting
import ElementQuery.Proofs.Group.Following
import ElementQuery.Selector.Matching

namespace ElementQuery.Common

open ElementQuery.Group

variable {document : Document} {id : NodeId} {element : Element}

section Fragments

variable {step : Step}

/-- A filter that is added is one more demand. -/
theorem isMet_add_attribute (held : document.element? id = some element) (filter : AttributeFilter) :
    (step.add (.attribute filter)).isMet document id =
      (step.isMet document id && filter.holds element) := by
  simp only [Step.isMet, Step.add, held, Option.any_some, Group.Compound.holds,
    Group.Compound.idHolds, Group.Compound.filtersHold, List.all_append, List.all_cons, List.all_nil,
    Bool.and_true]
  ac_rfl

theorem isMet_add_hasClass (held : document.element? id = some element) (name : String) :
    (step.add (.hasClass name)).isMet document id =
      (step.isMet document id && element.hasClass name) := by
  simp only [Step.isMet, Step.add, held, Option.any_some, Group.Compound.holds,
    Group.Compound.idHolds, Group.Compound.filtersHold, List.all_append, List.all_cons, List.all_nil,
    Bool.and_true]
  ac_rfl

theorem isMet_add_pseudo (pseudo : PseudoClass) :
    (step.add (.pseudo pseudo)).isMet document id =
      (step.isMet document id && pseudo.holds document id) := by
  simp only [Step.isMet, Step.add, List.all_append, List.all_cons, List.all_nil, Bool.and_true,
    Bool.and_assoc]

/-- A value that is not empty is compared alike. -/
theorem holds_strict (name : String) (operator : Group.Operator) {value : String}
    (nonempty : value ≠ "") :
    (operator.strict name value).holds element.attributes =
      AttributeFilter.holds ⟨name, some (operator, value)⟩ element := by
  unfold AttributeFilter.holds
  cases found : element.attributes.get? name with
  | none => cases operator <;> simp [Operator.strict, Selector.AttributeTest.holds, found]
  | some actual =>
      have known : (actual != "" && operator.holds actual value) = operator.holds actual value := by
        by_cases empty : actual = ""
        · rw [empty, operator.holds_of_empty nonempty, Bool.and_false]
        · simp [empty]
      dsimp only
      rw [Option.all_some, known]
      cases operator <;> simp [Operator.strict, Operator.holds, Selector.AttributeTest.holds, found,
        nonempty]

end Fragments

section Compounds

variable {A : Type} [Spelled A]

/-- An item means the same to both readers: added to a step, it is one more demand of an element. -/
def Means (document : Document) (id : NodeId) (element : Element) (item : A) : Prop :=
  ∀ step : Step, (step.add (Spelled.lenient item)).isMet document id =
    (step.isMet document id && (Spelled.strict item).holds document id element)

theorem isMet_foldl_add {items : List A} (each : ∀ item ∈ items, Means document id element item)
    (step : Step) : ((items.map Spelled.lenient).foldl Step.add step).isMet document id =
      (step.isMet document id &&
        Selector.allHold document id element (items.map Spelled.strict)) := by
  induction items generalizing step with
  | nil => simp [Selector.allHold]
  | cons item items inductionHypothesis =>
      have first := each item List.mem_cons_self step
      rw [List.map_cons, List.foldl_cons, inductionHypothesis
        fun other member => each other (List.mem_cons_of_mem _ member), first, Bool.and_assoc]
      rfl

/-- A step without anything but a tag asks for the tag. -/
theorem isMet_tag (held : document.element? id = some element) (combinator : Group.Combinator)
    (tag : Option Tag) :
    Step.isMet document
        { combinator, compound := { tag := (tag.map Tag.lenient).getD "*" } } id =
      Selector.allHold document id element (tag.toList.map Tag.strict) := by
  have asked : ∀ name : String, Step.isMet document { combinator, compound := { tag := name } } id =
      element.hasTag name := by
    intro name
    simp [Step.isMet, held, Group.Compound.holds, Group.Compound.idHolds, Group.Compound.filtersHold]
  rw [asked]
  cases tag with
  | none => rfl
  | some tag =>
      cases tag with
      | star => rfl
      | named name =>
          have starless : Text.lower name.string ≠ "*" := by
            intro same
            have letters := congrArg String.toList same
            obtain ⟨c, rest, shape, letter⟩ := exists_of_isName name.valid
            rw [Text.lower, Name.string, String.toList_ofList, String.toList_ofList, shape] at letters
            exact (isNameLetter_apart (isNameLetter_of_isAlpha letter)).2 (List.cons.inj letters).1
          simp [Element.hasTag, starless, Tag.lenient, Tag.strict, Selector.allHold,
            Selector.Simple.holds]

/-- An element meets the step of a compound exactly when it meets all its conditions. -/
theorem isMet_step (held : document.element? id = some element) (combinator : Group.Combinator)
    (compound : Compound A) (each : ∀ item ∈ compound.items, Means document id element item) :
    (compound.step combinator).isMet document id =
      Selector.allHold document id element compound.strict := by
  rw [Compound.step, isMet_foldl_add each, isMet_tag held, Compound.strict,
    Selector.allHold_eq_all, Selector.allHold_eq_all, Selector.allHold_eq_all, List.all_append]

end Compounds

section Conditions

/-- Tests mean the same to both readers. -/
theorem Test.means (held : document.element? id = some element) :
    ∀ test : Test, Means document id element test
  | .hasClass name, _ => isMet_add_hasClass held name.string
  | .attribute name operator value, step => by
      have compared := @holds_strict element (Text.lower name.string) operator _ value.string_ne_empty
      have added := @isMet_add_attribute document id element step held
        ⟨Text.lower name.string, some (operator, value.string)⟩
      rw [← compared] at added
      exact added

/-- Tests are not about the neighbours of an element. -/
theorem pseudos_tests (tests : List Test) (step : Step) :
    ((tests.map Spelled.lenient).foldl Step.add step).pseudos = step.pseudos := by
  induction tests generalizing step with
  | nil => rfl
  | cons test tests inductionHypothesis =>
      rw [List.map_cons, List.foldl_cons, inductionHypothesis]
      cases test <;> rfl

/-- A compound of tests holds of the same elements for both readers. -/
theorem holds_tests (held : document.element? id = some element) (compound : Compound Test) :
    (compound.step .descendant).compound.holds element =
      Selector.allHold document id element compound.strict := by
  have bare : (compound.step .descendant).pseudos = [] := pseudos_tests compound.items _
  rw [← isMet_step held .descendant compound fun test _ => test.means held, Step.isMet, bare, held]
  simp

/-- No row of siblings is longer than positions can tell. -/
def Countable (document : Document) (id : NodeId) : Prop :=
  ∀ kin found, document.positions? kin id = some found → found.1 < Progression.positionLimit

/-- Arguments that contain the same positions count the same elements. -/
theorem holds_nth (linked : document.Linked) (held : document.element? id = some element)
    (countable : Countable document id) {kin : Kin} {progression : Progression} {argument : Argument}
    (finite : kin = .any → argument ≠ .every)
    (same : ∀ {place : Nat}, 0 < place → place < Progression.positionLimit →
      argument.contains place = progression.contains place) :
    (PseudoClass.nth kin argument).holds document id =
      (Selector.PseudoClass.nth .front kin progression).holds document id element := by
  rw [PseudoClass.nth_holds linked finite, Selector.PseudoClass.nth_holds linked held]
  cases counted : document.positions? kin id with
  | none => rfl
  | some found => exact same (Document.positions?_pos counted).1 (countable kin found counted)

theorem holds_plain (linked : document.Linked) (held : document.element? id = some element)
    (pseudo : Plain) : pseudo.lenient.holds document id = pseudo.strict.holds document id element := by
  cases pseudo with
  | first kin =>
      exact (PseudoClass.first_holds linked).trans (Selector.PseudoClass.first_holds linked held).symm
  | last kin =>
      exact (PseudoClass.last_holds linked).trans (Selector.PseudoClass.last_holds linked held).symm
  | only kin =>
      exact (PseudoClass.only_holds linked).trans (Selector.PseudoClass.only_holds linked held).symm
  | enabled | disabled =>
      simp [Plain.lenient, Plain.strict, PseudoClass.holds, Selector.PseudoClass.holds,
        Document.hasAttribute, Document.attribute?, held, Attributes.contains]

/-- Conditions mean the same to both readers. -/
theorem Condition.means (linked : document.Linked) (held : document.element? id = some element)
    (countable : Countable document id) :
    ∀ condition : Condition, Means document id element condition
  | .test inner, step => inner.means held step
  | .plain pseudo, step => by
      have added := @isMet_add_pseudo document id step pseudo.lenient
      rw [holds_plain linked held] at added
      exact added
  | .position argument, step => by
      have added := @isMet_add_pseudo document id step (.nth .any (.position argument.place.toNat))
      have counts := @holds_nth document id element linked held countable .any ⟨0, argument.place⟩
        (.position argument.place.toNat) (fun _ => Argument.noConfusion) contains_position
      exact added.trans (congrArg (step.isMet document id && ·) counts)
  | .ofType argument, step => by
      have added := @isMet_add_pseudo document id step
        (.nth .sameTag (Argument.read argument.letters).value)
      have counts := @holds_nth document id element linked held countable .sameTag argument.progression
        (Argument.read argument.letters).value Kin.noConfusion (contains_read argument.read)
      exact added.trans (congrArg (step.isMet document id && ·) counts)
  | .negation compound, step => by
      have added := @isMet_add_pseudo document id step
        (.negation (compound.step .descendant).compound)
      have negated : PseudoClass.holds document id (.negation (compound.step .descendant).compound) =
          Selector.Simple.holds document id element (.negation [compound.strict]) := by
        rw [PseudoClass.holds, Selector.Simple.holds, Selector.someHolds_eq_any, held,
          Option.any_some, holds_tests held]
        simp
      rw [negated] at added
      exact added

/-- A compound selects the same elements for both readers. -/
theorem compoundHolds_strict (linked : document.Linked) (countable : Countable document id)
    (combinator : Group.Combinator) (compound : Compound Condition) :
    Selector.compoundHolds document compound.strict id =
      (compound.step combinator).isMet document id := by
  cases held : document.element? id with
  | none => simp [Selector.compoundHolds, Step.isMet, held]
  | some element =>
      rw [isMet_step held combinator compound fun condition _ => condition.means linked held countable,
        Selector.compoundHolds, held, Option.any_some]

end Conditions

end ElementQuery.Common

/-
This file shows that the tests written for pseudo-classes hold of the elements that meet them, siblings
being counted along the axes.
-/

import ElementQuery.Proofs.Group.Following
import ElementQuery.Proofs.Group.Progressions

namespace ElementQuery

namespace Group

open ElementQuery.Path

variable {document : Document} {tag : String} {kin : Kin} {id : NodeId}

/-- The siblings on an axis that are counted with an element of a tag name. -/
def counted (document : Document) (axis : Axis) (tag : String) (kin : Kin) (id : NodeId) :
    List NodeId :=
  candidates document axis (tagTest (kinTest tag kin)) id

/-- Siblings can be counted by their tag name only when the name is known. -/
def Countable (tag : String) (kin : Kin) : Prop := kin = .sameTag → tag ≠ "*"

theorem counted_eq_filter {axis : Axis} (countable : Countable tag kin)
    (tagged : document.hasTag id tag = true) :
    counted document axis tag kin id = (axis.navigate document id).filter (document.akin kin id) := by
  unfold counted candidates
  apply List.filter_congr
  intro other _
  rw [accepts_tagTest]
  obtain ⟨held, known⟩ := Option.isSome_iff_exists.1 (Document.isElement_of_hasTag tagged)
  cases kin with
  | any =>
      rw [kinTest, Document.hasTag_star, Document.akin, Bool.and_true]
  | sameTag =>
      have named : tag ≠ "*" := countable rfl
      have letters : Text.lower held.tag = Text.lower tag := by
        rw [Document.hasTag, known, Option.any_some, Element.hasTag, beq_eq_false_iff_ne.2 named,
          Bool.false_or] at tagged
        exact Text.sameLetters_iff.1 tagged
      rw [kinTest, Document.hasTag, Document.akin, Document.isElement]
      cases neighbour : document.element? other with
      | none => simp
      | some element =>
          simp [Document.sameTag, Document.tag?, known, neighbour, Element.hasTag, named,
            Text.sameLetters, letters]

theorem nodup_counted {axis : Axis} (linked : document.Linked)
    (beside : axis = .precedingSibling ∨ axis = .followingSibling) :
    (counted document axis tag kin id).Nodup := by
  apply List.Nodup.filter
  cases owned : document.parent? id with
  | none =>
      have alone := linked.siblings_of_parent?_eq_none owned
      rcases beside with rfl | rfl
      · simp [Axis.navigate, alone.2]
      · simp [Axis.navigate, alone.1]
  | some parent =>
      obtain ⟨before, after, place⟩ := linked.exists_place owned
      have distinct := linked.distinct parent
      rw [place] at distinct
      obtain ⟨front, back, -⟩ := List.nodup_append.1 distinct
      rcases beside with rfl | rfl
      · rw [Axis.navigate, linked.precedingSiblings_eq place]
        exact List.nodup_reverse.2 front
      · rw [Axis.navigate, linked.followingSiblings_eq place]
        exact (List.nodup_cons.1 back).2

/-- The positions of an element that has a parent are one more than the counts along the axes. -/
theorem positions?_eq_counted (linked : document.Linked) (countable : Countable tag kin)
    (owned : (document.parent? id).isSome = true) (tagged : document.hasTag id tag = true) :
    document.positions? kin id =
      some ((counted document .precedingSibling tag kin id).length + 1,
        (counted document .followingSibling tag kin id).length + 1) := by
  obtain ⟨parent, owner⟩ := Option.isSome_iff_exists.1 owned
  obtain ⟨before, after, place⟩ := linked.exists_place owner
  rw [linked.positions?_eq (Document.isElement_of_hasTag tagged) place, counted_eq_filter countable tagged,
    counted_eq_filter countable tagged, Axis.navigate, Axis.navigate,
    linked.precedingSiblings_eq place, linked.followingSiblings_eq place, List.filter_reverse,
    List.length_reverse]

/-- An element that has a parent is the first of its kind when none is counted before it. -/
theorem isFirst_eq_isEmpty (linked : document.Linked) (countable : Countable tag kin)
    (owned : (document.parent? id).isSome = true) (tagged : document.hasTag id tag = true) :
    document.isFirst kin id = (counted document .precedingSibling tag kin id).isEmpty := by
  rw [Document.isFirst, positions?_eq_counted linked countable owned tagged, Option.any_some]
  cases counted document .precedingSibling tag kin id <;> simp

/-- An element that has a parent is the last of its kind when none is counted behind it. -/
theorem isLast_eq_isEmpty (linked : document.Linked) (countable : Countable tag kin)
    (owned : (document.parent? id).isSome = true) (tagged : document.hasTag id tag = true) :
    document.isLast kin id = (counted document .followingSibling tag kin id).isEmpty := by
  rw [Document.isLast, positions?_eq_counted linked countable owned tagged, Option.any_some]
  cases counted document .followingSibling tag kin id <;> simp

/-- An argument that is not met by every position asks for the number of siblings before an element. -/
theorem nth_holds_eq_contains (linked : document.Linked) (countable : Countable tag kin)
    (owned : (document.parent? id).isSome = true) (tagged : document.hasTag id tag = true)
    {argument : Argument} (finite : argument ≠ .every) :
    (PseudoClass.nth kin argument).holds document id =
      argument.contains ((counted document .precedingSibling tag kin id).length + 1) := by
  rw [PseudoClass.nth_holds linked fun _ => finite, positions?_eq_counted linked countable owned tagged, Option.any_some]

section Positions

variable {position text : String} {index : NodeId → Nat}

/-- The test that is written for a progression holds where the position is in the progression. -/
theorem meets_progressionTest {progression : Progression} (bounded : progression.Bounded)
    (counts : Counts document .additive position fun id => index id)
    (positive : ∀ id, 0 < index id)
    (small : ∀ id, document.isElement id = true → index id ≤ 2 ^ 52) :
    Meets document .and (progressionTest position progression) fun id =>
      progression.contains (index id) := by
  obtain ⟨expression, phrase, evaluates⟩ := counts
  apply Means.of_evaluate (phrase_progressionTest phrase progression)
  intro context views element
  obtain ⟨value, evaluated, number, rfl, denotes⟩ := evaluates context views element
  have decided := decides_progressionExpression (.evaluation context) bounded
    ⟨number, evaluated, denotes⟩ (positive _) (small _ element)
  exact ⟨_, decided, rfl, rfl⟩

/-- The test that is written for an argument holds where the argument contains the position. -/
theorem meets_positionTest {argument : Argument}
    (bounded : ∀ held, argument = .progression held → held.Bounded)
    (written : positionTest? position argument = some text)
    (counts : Counts document .additive position fun id => index id)
    (positive : ∀ id, 0 < index id)
    (small : ∀ id, document.isElement id = true → index id ≤ 2 ^ 52) :
    Meets document .and text fun id => argument.contains (index id) := by
  cases argument with
  | every => cases written
  | position k =>
      cases written
      have compared := Counts.equalNatural (counts.loosen (by decide)) (fun id element => by
        have := small id element
        omega) k
      exact compared.loosen (by decide)
  | progression held =>
      cases written
      exact meets_progressionTest (bounded held rfl) counts positive small

end Positions

namespace PseudoClass

/-- A pseudo-class can be written in an expression for a tag name: siblings of one name are counted
when the name is known, numbers are bounded, and nothing asks for the markup of an element. -/
def Readable (tag : String) : PseudoClass → Prop
  | .first kin | .last kin | .only kin => Countable tag kin
  | .nth kin argument =>
      Countable tag kin ∧ ∀ held, argument = .progression held → held.Bounded
  | .contains _ => False
  | .negation compound => compound.Readable
  | .empty | .enabled | .disabled | .checked => True

/-- What a pseudo-class counts, positions and characters, is less than two to the power of 52. -/
def Short (document : Document) : PseudoClass → Prop
  | .nth _ argument => argument ≠ .every → ∀ id, (document.children id).length < 2 ^ 52
  | .negation compound => compound.Short document
  | _ => True

end PseudoClass

/-- The test for siblings on an axis holds where there are none. -/
theorem meets_noneCounted (linked : document.Linked) {axis : Axis}
    (beside : axis = .precedingSibling ∨ axis = .followingSibling)
    (readable : tag = "*" ∨ isPathName tag = true) :
    Meets document .equality (countTest axis.name (kinTest tag kin) ++ " = 0") fun id =>
      (counted document axis tag kin id).isEmpty := by
  have along : axis ≠ .attribute := by rcases beside with rfl | rfl <;> decide
  have leads := @Leads.plainAxis document _ _ axis along (@testPhrase_kinTest tag kin readable)
  have shape : countTest axis.name (kinTest tag kin) ++ " = 0" =
      "count(" ++ (axis.name ++ "::" ++ kinTest tag kin) ++ ") = 0" := by
    simp [countTest, ← String.toList_inj]
  rw [shape]
  exact leads.countZero fun id _ => nodup_counted linked beside

/-- The place of an element is one more than the count of the siblings before it. -/
theorem counts_place (linked : document.Linked) (readable : tag = "*" ∨ isPathName tag = true)
    (short : ∀ id, (document.children id).length < 2 ^ 52) :
    (∀ id, (counted document .precedingSibling tag kin id).length + 1 ≤ 2 ^ 52) ∧
      Counts document .additive (countTest "preceding-sibling" (kinTest tag kin) ++ " + 1") fun id =>
        ((counted document .precedingSibling tag kin id).length + 1 : Nat) := by
  have few : ∀ id, (counted document .precedingSibling tag kin id).length + 1 ≤ 2 ^ 52 := by
    intro id
    have filtered : (counted document .precedingSibling tag kin id).length ≤
        (document.precedingSiblings id).length := List.length_filter_le _ _
    cases owned : document.parent? id with
    | none =>
        rw [(linked.siblings_of_parent?_eq_none owned).2] at filtered
        have : 0 < 2 ^ 52 := by decide
        simp only [List.length_nil] at filtered
        omega
    | some parent =>
        obtain ⟨before, after, place⟩ := linked.exists_place owned
        have bound := short parent
        rw [place, List.length_append, List.length_cons] at bound
        rw [linked.precedingSiblings_eq place, List.length_reverse] at filtered
        omega
  refine ⟨few, ?_⟩
  have leads := @Leads.plainAxis document _ _ .precedingSibling (by decide)
    (@testPhrase_kinTest tag kin readable)
  have count := leads.counts (fun id _ => nodup_counted linked (.inl rfl)) fun id _ => by
    have := few id
    show (counted document .precedingSibling tag kin id).length < 2 ^ 53
    omega
  have unit : Counts document .primary (toString 1) fun _ => (1 : Nat) :=
    Counts.natural (by decide)
  have sum := (count.loosen (by decide)).plus (unit.loosen (by decide)) fun id _ => by
    have := few id
    show ((counted document .precedingSibling tag kin id).length + (1 : Nat) : Int).natAbs < 2 ^ 53
    omega
  rw [placeText_eq]
  exact sum

/-- The test for children holds where there are none. -/
theorem meets_noChildren (linked : document.Linked) :
    Meets document .equality (countTest "child" "node()" ++ " = 0") fun id =>
      (document.children id).isEmpty := by
  have leads := @Leads.plainAxis document "node()" .node .child (by decide) TestPhrase.node
  have all : ∀ id, candidates document .child .node id = document.children id := by
    intro id
    apply List.filter_eq_self.2
    intro child member
    obtain ⟨node, found⟩ := Option.isSome_iff_exists.1
      (Document.node?_isSome_iff.2 (linked.child_lt_size member))
    simp [NodeTest.accepts, Document.content?, found]
  have shape : countTest "child" "node()" ++ " = 0" =
      "count(" ++ (Axis.child.name ++ "::" ++ "node()") ++ ") = 0" := by
    decide
  rw [shape]
  apply (leads.countZero fun id _ => by
    rw [all]
    exact linked.distinct id).congr
  intro id element _
  rw [all]

namespace PseudoClass

/-- The test that is written for a pseudo-class holds of the elements of the tag name that have a
parent and meet the pseudo-class. -/
theorem exists_test (linked : document.Linked) (plain : document.Plain)
    (named : tag = "*" ∨ isPathName tag = true) {pseudo : PseudoClass}
    (readable : pseudo.Readable tag) (short : pseudo.Short document) {text : String}
    (written : pseudo.pathTest? tag = some text) :
    ∃ holds, Meets document .and text holds ∧ ∀ id, (document.parent? id).isSome = true →
      document.hasTag id tag = true → holds id = pseudo.holds document id := by
  cases pseudo with
  | first kin =>
      cases written
      have front := @meets_noneCounted document tag kin linked .precedingSibling (.inl rfl) named
      exact ⟨_, front.loosen (by decide), fun id owned tagged =>
        ((first_holds linked).trans (isFirst_eq_isEmpty linked readable owned tagged)).symm⟩
  | last kin =>
      cases written
      have back := @meets_noneCounted document tag kin linked .followingSibling (.inr rfl) named
      exact ⟨_, back.loosen (by decide), fun id owned tagged =>
        ((last_holds linked).trans (isLast_eq_isEmpty linked readable owned tagged)).symm⟩
  | only kin =>
      cases written
      have front := @meets_noneCounted document tag kin linked .precedingSibling (.inl rfl) named
      have back := @meets_noneCounted document tag kin linked .followingSibling (.inr rfl) named
      refine ⟨_, (front.loosen (by decide)).and back, fun id owned tagged => ?_⟩
      rw [only_holds linked, isFirst_eq_isEmpty linked readable owned tagged,
        isLast_eq_isEmpty linked readable owned tagged]
  | nth kin argument =>
      have finite : argument ≠ .every := by
        intro same
        obtain rfl := same
        cases written
      obtain ⟨few, counts⟩ := @counts_place document tag kin linked named (short finite)
      have test := meets_positionTest readable.2 written counts (fun _ => Nat.succ_pos _)
        fun id _ => few id
      exact ⟨_, test, fun id owned tagged =>
        (nth_holds_eq_contains linked readable.1 owned tagged finite).symm⟩
  | empty =>
      cases written
      exact ⟨_, (meets_noChildren linked).loosen (by decide), fun _ _ _ => rfl⟩
  | contains text => cases readable
  | enabled =>
      cases written
      have test := @meets_hasAttribute document "disabled" plain (by decide) (by decide)
      have shape : "not(@disabled)" = "not(" ++ ("@" ++ "disabled") ++ ")" := by decide
      rw [shape]
      exact ⟨_, (test.loosen (by decide)).not.loosen (by decide), fun _ _ _ => rfl⟩
  | disabled =>
      cases written
      have test := @meets_hasAttribute document "disabled" plain (by decide) (by decide)
      exact ⟨_, test.loosen (by decide), fun _ _ _ => rfl⟩
  | checked =>
      cases written
      have test := @meets_hasAttribute document "checked" plain (by decide) (by decide)
      exact ⟨_, test.loosen (by decide), fun _ _ _ => rfl⟩
  | negation compound =>
      cases written
      have meets : Meets document .and compound.pathTest fun id =>
          (document.element? id).any compound.holds := by
        apply (Compound.meets_pathTest (Compound.Readable.named readable)).congr
        intro id element held
        rw [Compound.all_allDemands plain readable short held, held, Option.any_some]
      exact ⟨_, (meets.loosen (by decide)).not.loosen (by decide), fun _ _ _ => rfl⟩

/-- A pseudo-class without a test is met by every element that has a parent. -/
theorem holds_of_pathTest?_eq_none (linked : document.Linked) {pseudo : PseudoClass}
    (readable : pseudo.Readable tag) (unwritten : pseudo.pathTest? tag = none)
    (owned : (document.parent? id).isSome = true) (tagged : document.hasTag id tag = true) :
    pseudo.holds document id = true := by
  cases pseudo with
  | nth kin argument =>
      cases argument with
      | every =>
          cases kin with
          | any => rfl
          | sameTag =>
              have counted := positions?_eq_counted linked readable.1 owned tagged
              rw [nth_holds linked (fun same => by cases same), counted]
              rfl
      | position k => cases unwritten
      | progression held => cases unwritten
  | first kin | last kin | only kin | empty | contains text => cases unwritten
  | enabled | disabled | checked | negation compound => cases unwritten

end PseudoClass

end Group

end ElementQuery

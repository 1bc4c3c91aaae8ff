/-
This file shows that the expression of a group can always be evaluated when the names in it are names in
expressions, and what it then asks of the elements that it selects.
-/

import ElementQuery.Proofs.Group.Agreement
import ElementQuery.Proofs.Markup.Growth
import ElementQuery.Proofs.Path.Tests

namespace ElementQuery.Group

open ElementQuery.Path

/-- The names in a step are names in expressions, also where the step negates them. -/
structure Step.Named (step : Step) : Prop where
  compound : step.compound.Named
  negations : ∀ compound, .negation compound ∈ step.pseudos → compound.Named

variable {document : Document} {tag text position : String} {kin : Kin} {scope : NodeId}
  {selected : List NodeId}

/-- The test for a progression can be evaluated, however large the numbers in it are. -/
theorem isTest_progressionTest (place : HasValue document .additive position)
    (progression : Progression) : IsTest document .and (progressionTest position progression) := by
  obtain ⟨expression, phrase, settled⟩ := place.exists_settled
  have number : ∀ value, Settled document (.ofInt value) := Settled.ofInt
  have aligned : Judged document (alignedExpression expression progression) :=
    (settled.operate (by decide) (number _)).compare rfl (by decide) (number _)
  have distance : Judged document (distanceExpression expression progression) :=
    (((number _).operate (by decide) settled).operate (by decide) (number _)).compare rfl
      (by decide) (number _)
  apply Judged.isTest _ (phrase_progressionTest phrase progression)
  unfold progressionExpression
  dsimp only
  split
  · exact settled.compare rfl (by decide) (number _)
  · split
    · split
      · exact aligned.and (settled.compare rfl (by decide) (number _))
      · exact aligned
    · exact (settled.compare rfl (by decide) (number _)).and distance

/-- The test for an argument can be evaluated, however large the numbers in it are. -/
theorem isTest_positionTest (place : HasValue document .additive position) {argument : Argument}
    (written : positionTest? position argument = some text) : IsTest document .and text := by
  cases argument with
  | every => cases written
  | position k =>
      cases written
      exact ((place.loosen (by decide)).equal ((HasValue.natural k).loosen (by decide))).loosen
        (by decide)
  | progression held =>
      cases written
      exact isTest_progressionTest place held

/-- The place of an element among its siblings has a value, however many they are. -/
theorem hasValue_place (linked : document.Linked) (named : tag = "*" ∨ isPathName tag = true) :
    HasValue document .additive (countTest "preceding-sibling" (kinTest tag kin) ++ " + 1") := by
  have leads := @Leads.plainAxis document _ _ .precedingSibling (by decide)
    (@testPhrase_kinTest tag kin named)
  have count := leads.countValue fun id _ => nodup_counted linked (.inl rfl)
  rw [placeText_eq]
  exact .operate rfl rfl Sign.plus (by decide) (count.loosen (by decide))
    ((HasValue.natural 1).loosen (by decide))

/-- The text of an element may be searched. -/
theorem isTest_contains (searched : String) :
    IsTest document .primary ("contains(., " ++ literal searched ++ ")") := by
  have whole : Tells document .or "." fun id => nodeText document id := by
    apply Means.of_evaluate (Phrase.context.loosen (by decide))
    intro context views _
    refine ⟨.nodes [context.node], by rw [evaluate], ?_⟩
    rfl
  have shape : "contains(., " ++ literal searched ++ ")" =
      "contains(" ++ "." ++ ", " ++ literal searched ++ ")" := by
    simp
  rw [shape]
  exact ⟨_, whole.contains (means_literal searched).tells⟩

/-- The test for a pseudo-class can be evaluated when the names in it are names in expressions. -/
theorem PseudoClass.isTest_pathTest (linked : document.Linked)
    (named : tag = "*" ∨ isPathName tag = true) {pseudo : PseudoClass}
    (negations : ∀ compound, pseudo = .negation compound → compound.Named)
    (written : pseudo.pathTest? tag = some text) : IsTest document .and text := by
  have none : ∀ axis : Axis, axis = .precedingSibling ∨ axis = .followingSibling → ∀ kin,
      IsTest document .equality (countTest axis.name (kinTest tag kin) ++ " = 0") :=
    fun axis beside kin => ⟨_, @meets_noneCounted document tag kin linked axis beside named⟩
  have flag : ∀ name, isPathName name = true → IsTest document .primary ("@" ++ name) :=
    fun name valid => ⟨_, @Meets.attribute document name valid⟩
  cases pseudo with
  | first kin =>
      cases written
      exact (none .precedingSibling (.inl rfl) kin).loosen (by decide)
  | last kin =>
      cases written
      exact (none .followingSibling (.inr rfl) kin).loosen (by decide)
  | only kin =>
      cases written
      exact ((none .precedingSibling (.inl rfl) kin).loosen (by decide)).and
        (none .followingSibling (.inr rfl) kin)
  | nth kin argument => exact isTest_positionTest (hasValue_place linked named) written
  | empty =>
      cases written
      exact ⟨_, (meets_noChildren linked).loosen (by decide)⟩
  | contains searched =>
      cases written
      exact (isTest_contains searched).loosen (by decide)
  | enabled =>
      cases written
      have shape : "not(@disabled)" = "not(" ++ ("@" ++ "disabled") ++ ")" := by decide
      rw [shape]
      exact ((flag "disabled" (by decide)).loosen (by decide)).not.loosen (by decide)
  | disabled =>
      cases written
      exact (flag "disabled" (by decide)).loosen (by decide)
  | checked =>
      cases written
      exact (flag "checked" (by decide)).loosen (by decide)
  | negation compound =>
      cases written
      have test : IsTest document .and compound.pathTest :=
        ⟨_, Compound.meets_pathTest (negations compound rfl)⟩
      exact (test.loosen (by decide)).not.loosen (by decide)

/-- What an expression selects has been tested for the last step: it has the tag name and meets the demands
as they are written. -/
def Step.Passed (document : Document) (step : Step) (id : NodeId) : Prop :=
  document.hasTag id step.compound.tag = true ∧
    ((step.compound.demands document).all fun demand => demand.2 id) = true

/-- The expression of a step leads on from whatever has been reached to elements that pass. -/
theorem Step.Named.exists_reaches (linked : document.Linked) {step : Step} (named : step.Named)
    (reaches : Reaches document text scope selected) :
    ∃ next, Reaches document (text ++ step.pathText) scope next ∧
      ∀ id ∈ next, step.Passed document id := by
  have pseudos : ∀ test ∈ step.pseudos.filterMap (PseudoClass.pathTest? step.compound.tag),
      IsTest document .and test := by
    intro test member
    obtain ⟨pseudo, known, written⟩ := List.mem_filterMap.1 member
    refine PseudoClass.isTest_pathTest linked named.compound.tag (fun compound same => ?_) written
    exact named.negations compound (same ▸ known)
  obtain ⟨tests, texts, meets⟩ := exists_meets pseudos
  refine ⟨(selected.flatMap (step.combinator.places document)).filter fun id =>
    document.hasTag id step.compound.tag &&
      (step.compound.demands document ++ tests).all fun test => test.2 id, ?_, fun id member => ?_⟩
  · apply Step.reaches_pathText named.compound texts meets reaches
    intro id
    simp only [List.mem_filter, List.mem_flatMap, Bool.and_eq_true]
    constructor
    · intro given
      obtain ⟨⟨earlier, member, place⟩, met⟩ := given
      exact ⟨earlier, member, place, met⟩
    · intro given
      obtain ⟨earlier, member, place, met⟩ := given
      exact ⟨⟨earlier, member, place⟩, met⟩
  · obtain ⟨-, met⟩ := List.mem_filter.1 member
    rw [List.all_append, Bool.and_eq_true, Bool.and_eq_true] at met
    exact ⟨met.1, met.2.1⟩

/-- The expression of several steps leads from the scope to elements that pass the last step. -/
theorem exists_reaches_steps (linked : document.Linked) (steps : List Step)
    (named : ∀ step ∈ steps, step.Named) :
    ∃ next, Reaches document ("." ++ String.join (steps.map Step.pathText)) scope next ∧
      ∀ last ∈ steps.getLast?, ∀ id ∈ next, last.Passed document id := by
  induction steps using List.reverseRecOn with
  | nil => exact ⟨[scope], Reaches.start, fun _ none => absurd none (by simp)⟩
  | append_singleton steps step inductionHypothesis =>
      obtain ⟨earlier, reaches, -⟩ := inductionHypothesis fun other member => named other (by simp [member])
      obtain ⟨next, further, passed⟩ := (named step (by simp)).exists_reaches linked reaches
      refine ⟨next, ?_, fun last found => ?_⟩
      · rw [List.map_append, String.join_append, ← String.append_assoc]
        simpa using further
      · rw [List.getLast?_concat, Option.mem_some_iff] at found
        exact found ▸ passed

/-- The expression of a group whose names are names in expressions selects, at every scope, elements that
pass its last step. -/
theorem exists_select_pathText (linked : document.Linked)
    (inside : Engine.isScope document scope = true) {group : Group}
    (wellFormed : group.isMalformed = false) (named : ∀ step ∈ group.steps, step.Named) :
    ∃ text nodes, group.pathText? = some text ∧ Path.select document text scope = .ok nodes ∧
      ∀ last ∈ group.steps.getLast?, ∀ id ∈ nodes, last.Passed document id := by
  obtain ⟨next, reaches, passed⟩ := exists_reaches_steps linked group.steps named
  obtain ⟨nodes, selected, same⟩ := reaches.select_eq linked (node?_isSome_of_isScope inside)
  refine ⟨_, nodes, ?_, selected, fun last found id member => ?_⟩
  · rw [pathText?, wellFormed, if_neg Bool.false_ne_true]
  · exact passed last found id ((same id).1 member)

/-- In every reachable document and at every scope, the expression of a group can be evaluated when the tag
names and the attribute names in the group are names in expressions, whatever else the group asks for. -/
theorem select_pathText_ok {document : Document} (reachable : document.Reachable) {scope : NodeId}
    (inside : Engine.isScope document scope = true) {group : Group}
    (wellFormed : group.isMalformed = false) (named : ∀ step ∈ group.steps, step.Named) :
    ∃ text nodes, group.pathText? = some text ∧ Path.select document text scope = .ok nodes := by
  obtain ⟨text, nodes, written, selected, -⟩ :=
    exists_select_pathText reachable.linked inside wellFormed named
  exact ⟨text, nodes, written, selected⟩

/-- An ending, siblings of an unknown name, a progression downwards from a large offset, a negation and a text
with both kinds of quotes are asked for below an element. -/
theorem select_pathText_ok_of_quotes : ∃ document group text nodes, Document.Reachable document ∧
    Engine.isScope document 1 = true ∧ group ∈ (parse ("#x *:first-of-type[b-1$=d] + " ++
      "p:nth-of-type(-2n+2147483647):not(a.c[e^=f]):contains('\"'\"'\")")).value ∧
    group.pathText? = some text ∧ Path.select document text 1 = .ok nodes := by
  let document := (Markup.load "<main><div id=x><i b-1=d></i><p>'\"'\"'\"</p></div></main>").value
  have ends : Compound.Named { attributes := [⟨"b-1", some (.ending, "d")⟩] } :=
    ⟨.inl rfl, by simp +decide⟩
  have begins : Compound.Named
      { tag := "a", classes := ["c"], attributes := [⟨"e", some (.beginning, "f")⟩] } :=
    ⟨.inr (by decide), by simp +decide⟩
  let group : Group := ⟨"#x *:first-of-type[b-1$=d] + " ++
      "p:nth-of-type(-2n+2147483647):not(a.c[e^=f]):contains('\"'\"'\")",
    [⟨.descendant, { id := some "x" }, []⟩,
      ⟨.descendant, { attributes := [⟨"b-1", some (.ending, "d")⟩] }, [.first .sameTag]⟩,
      ⟨.adjacent, { tag := "p" }, [.nth .sameTag (.progression ⟨-2, 2147483647⟩),
        .negation { tag := "a", classes := ["c"], attributes := [⟨"e", some (.beginning, "f")⟩] },
        .contains "'\"'\"'\""]⟩], none⟩
  have read : group ∈ (parse group.source).value := by decide +kernel
  have reachable : document.Reachable := (Markup.load_shows _).1
  have inside : Engine.isScope document 1 = true := by decide +kernel
  have named : ∀ step ∈ group.steps, step.Named := by
    intro step member
    simp only [group, List.mem_cons, List.not_mem_nil, or_false] at member
    rcases member with rfl | rfl | rfl
    · exact ⟨⟨.inl rfl, by simp⟩, by simp⟩
    · exact ⟨ends, by simp⟩
    · refine ⟨⟨.inr (by decide), by simp⟩, fun compound found => ?_⟩
      obtain rfl : compound = _ := by simpa using found
      exact begins
  obtain ⟨text, nodes, written, selected⟩ := select_pathText_ok reachable inside rfl named
  exact ⟨document, group, text, nodes, reachable, inside, read, written, selected⟩

/-- A name that begins with a minus sign is refused where the expression is read, although walking and matching
find the element that has an attribute of this name. -/
theorem select_pathText_refused : ∃ document group text, Document.Reachable document ∧
    Engine.isScope document 0 = true ∧ group ∈ (parse "[-x]").value ∧ group.isMalformed = false ∧
    group.selectAll document 0 = [1] ∧ Selector.selectAll document 0 "[-x]" = .ok [1] ∧
    group.pathText? = some text ∧ Path.select document text 0 = .error (.unexpected .minus 18) := by
  refine ⟨(Markup.load "<p -x=1></p>").value,
    ⟨"[-x]", [⟨.descendant, { attributes := [⟨"-x", none⟩] }, []⟩], none⟩,
    "./descendant::*[@-x != '']", (Markup.load_shows _).1, ?_, ?_, rfl, ?_, ?_, ?_, ?_⟩
  · decide +kernel
  · decide
  · decide +kernel
  · decide +kernel
  · decide
  · decide +kernel

end ElementQuery.Group

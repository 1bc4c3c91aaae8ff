/-
This file shows that the expression of a group filters the elements of a loaded document by attributes as the
group does, as long as the names in the group are names in expressions.
-/

import ElementQuery.Proofs.Group.Acceptance
import ElementQuery.Proofs.Markup.Pieces

namespace ElementQuery.Group

open ElementQuery.Path

variable {document : Document} {id : NodeId} {element : Element}

/-- An element whose attribute names are distinct and hold no capitals meets the filters of a step that it
has passed. -/
theorem Step.Passed.holds {step : Step} (passed : step.Passed document id)
    (written : step.compound.Written) (held : document.element? id = some element)
    (distinct : element.attributes.names.Nodup)
    (small : ∀ name ∈ element.attributes.names, ∀ c ∈ name.toList, c.isUpper = false) :
    ∀ filter ∈ step.compound.attributes, filter.holds element = true := by
  intro filter member
  have listed : (filter.pathTest, fun id : NodeId => filter.passes (valuesAt document filter.name id)) ∈
      step.compound.demands document :=
    List.mem_append_right _ (List.mem_map_of_mem member)
  have tested : filter.passes (valuesAt document filter.name id) = true :=
    List.all_eq_true.1 passed.2 _ listed
  rw [valuesAt_eq held distinct small (written.attributes filter member)] at tested
  exact filter.holds_of_passes tested

/-- In every document that is loaded from markup and at every scope, the expression of a group that is read
selects only elements that meet all attribute filters of the last step, when the tag names and the attribute
names in the group are names in expressions. -/
theorem filters_hold_of_mem_select (markup : String) {scope : NodeId}
    (inside : Engine.isScope (Markup.load markup).value scope = true) {query : String} {group : Group}
    (read : group ∈ (parse query).value) (wellFormed : group.isMalformed = false)
    (named : ∀ step ∈ group.steps, step.Named) :
    ∃ text nodes last, group.pathText? = some text ∧
      Path.select (Markup.load markup).value text scope = .ok nodes ∧
      group.steps.getLast? = some last ∧ ∀ id ∈ nodes, ∃ element,
        (Markup.load markup).value.element? id = some element ∧
        ∀ filter ∈ last.compound.attributes, filter.holds element = true := by
  have linked : (Markup.load markup).value.Linked := (Markup.load_shows markup).1.linked
  obtain ⟨text, nodes, spelled, selected, passed⟩ :=
    exists_select_pathText linked inside wellFormed named
  obtain ⟨last, final⟩ : ∃ last, group.steps.getLast? = some last := by
    apply Option.isSome_iff_exists.1
    rw [List.getLast?_isSome]
    rintro empty
    simp [isMalformed, empty] at wellFormed
  refine ⟨text, nodes, last, spelled, selected, final, fun id member => ?_⟩
  have tested := passed last final id member
  obtain ⟨element, held⟩ := Option.isSome_iff_exists.1 (Document.isElement_of_hasTag tested.1)
  have attributes := (Markup.loadable_of_load held).attributes
  refine ⟨element, held, tested.holds ?_ held attributes.distinct fun name found => ?_⟩
  · exact (written_parse read last (List.mem_of_getLast? final)).compound
  · obtain ⟨entry, listed, rfl⟩ := List.mem_map.1 found
    exact (attributes.names entry listed).small

/-- The second of two elements with the attribute has the ending that is asked for, although the name and the
ending look like an operator and the quote of a literal. -/
theorem filters_hold_of_mem_select_of_quote : ∃ group text last element,
    Engine.isScope (Markup.load "<p or=x><p OR=\"a' or '1\">").value 0 = true ∧
    group ∈ (parse "p[or$=\"' or '1\"]").value ∧ group.pathText? = some text ∧
    Path.select (Markup.load "<p or=x><p OR=\"a' or '1\">").value text 0 = .ok [2] ∧
    group.steps.getLast? = some last ∧
    (Markup.load "<p or=x><p OR=\"a' or '1\">").value.element? 2 = some element ∧
    ∀ filter ∈ last.compound.attributes, filter.holds element = true := by
  let group : Group := ⟨"p[or$=\"' or '1\"]",
    [⟨.descendant, { tag := "p", attributes := [⟨"or", some (.ending, "' or '1")⟩] }, []⟩], none⟩
  have inside : Engine.isScope (Markup.load "<p or=x><p OR=\"a' or '1\">").value 0 = true := by
    decide +kernel
  have read : group ∈ (parse "p[or$=\"' or '1\"]").value := by decide +kernel
  have named : ∀ step ∈ group.steps, step.Named := by
    intro step member
    rw [List.mem_singleton.1 member]
    exact ⟨⟨.inr (by decide), by simp +decide⟩, by simp⟩
  have found : group.pathText?.map (fun text =>
      Path.select (Markup.load "<p or=x><p OR=\"a' or '1\">").value text 0) = some (.ok [2]) := by
    decide +kernel
  obtain ⟨text, nodes, last, written, selected, final, filtered⟩ :=
    filters_hold_of_mem_select _ inside read rfl named
  rw [written, Option.map_some, selected] at found
  obtain rfl : nodes = [2] := Except.ok.inj (Option.some.inj found)
  obtain ⟨element, held, met⟩ := filtered 2 List.mem_cons_self
  exact ⟨group, text, last, element, inside, read, written, selected, final, held, met⟩

/-- The name of an attribute that is no name in expressions is read as an operator, so that an element without
the attribute is selected. -/
theorem select_leaks_of_operator : ∃ group text last filter element,
    group ∈ (parse "[a or 1]").value ∧ group.isMalformed = false ∧ group.pathText? = some text ∧
    Path.select (Markup.load "<p></p>").value text 0 = .ok [1] ∧
    (Markup.load "<p></p>").value.element? 1 = some element ∧
    group.steps.getLast? = some last ∧ filter ∈ last.compound.attributes ∧
    filter.holds element = false := by
  refine ⟨⟨"[a or 1]", [⟨.descendant, { attributes := [⟨"a or 1", none⟩] }, []⟩], none⟩,
    "./descendant::*[@a or 1 != '']", ⟨.descendant, { attributes := [⟨"a or 1", none⟩] }, []⟩,
    ⟨"a or 1", none⟩, Element.named "p", by decide, rfl, by decide, ?_, ?_, rfl, by simp, by decide⟩
  · decide +kernel
  · decide +kernel

end ElementQuery.Group

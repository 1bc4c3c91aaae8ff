/-
This file shows what the test for a class says of the elements of a loaded document: the class is one of the
words between the spaces of the class attribute, where other blanks do not part words.
-/

import ElementQuery.Proofs.Group.Demands
import ElementQuery.Proofs.Group.Reading
import ElementQuery.Proofs.Markup.Pieces

namespace ElementQuery.Group

/-- A negation asks for the classes of its compound. -/
def PseudoClass.classNames : PseudoClass → List String
  | .negation compound => compound.classes
  | _ => []

/-- All classes that a step asks for, those in its negations included. -/
def Step.classNames (step : Step) : List String :=
  step.compound.classes ++ step.pseudos.flatMap PseudoClass.classNames

/-- All classes that a group asks for. -/
def classNames (group : Group) : List String := group.steps.flatMap Step.classNames

/-- A class that is read has a letter and no blank. -/
theorem solid_of_mem_classNames {query : String} {group : Group} (read : group ∈ (parse query).value)
    {name : String} (asked : name ∈ group.classNames) :
    name ≠ "" ∧ ∀ c ∈ name.toList, Text.isAsciiBlank c = false := by
  obtain ⟨step, member, named⟩ := List.mem_flatMap.1 asked
  have written := written_parse read step member
  rcases List.mem_append.1 named with direct | negated
  · exact written.compound.classes name direct
  · obtain ⟨pseudo, listed, inside⟩ := List.mem_flatMap.1 negated
    have known := written.pseudos pseudo listed
    cases pseudo with
    | negation compound => exact known.classes name inside
    | first | last | only | nth | empty | contains | enabled | disabled | checked => cases inside

/-- In every document that is loaded from markup, the test for a class that is read can be evaluated at every
element. It keeps the element when the class is a word between the spaces of the class attribute. Such an
element has the class, and it is kept for every class that it has if no blank but the space stands in the
attribute. -/
theorem classTest_iff_mem_words (markup : String) {query : String} {group : Group}
    (read : group ∈ (parse query).value) {name : String} (asked : name ∈ group.classNames)
    {id : NodeId} {element : Element} (held : (Markup.load markup).value.element? id = some element) :
    ∃ expression value, Path.parse (classTest name) = .ok expression ∧
      Path.evaluateAt (Markup.load markup).value id expression = .ok value ∧
      (∀ position, Path.isKept position value = value.toBoolean) ∧
      (value.toBoolean = true ↔ name.toList ∈ Text.words (· == ' ') (classText element)) ∧
      (value.toBoolean = true → element.hasClass name = true) ∧
      ((∀ c ∈ classText element, Text.isAsciiBlank c = true → c = ' ') →
        value.toBoolean = element.hasClass name) := by
  obtain ⟨nonempty, solid⟩ := solid_of_mem_classNames read asked
  have attributes := (Markup.loadable_of_load held).attributes
  have small : ∀ other ∈ element.attributes.names, ∀ c ∈ other.toList, c.isUpper = false := by
    intro other member
    obtain ⟨entry, listed, rfl⟩ := List.mem_map.1 member
    exact (attributes.names entry listed).small
  obtain ⟨expression, value, parsed, evaluated, truth, kept⟩ :=
    (meets_classTest name).evaluateAt_eq (Markup.load_shows markup).1.linked
      (Option.isSome_iff_exists.2 ⟨element, held⟩)
  rw [Path.valuesAt_eq held attributes.distinct small (by decide)] at truth
  have word : value.toBoolean = true ↔ name.toList ∈ Text.words (· == ' ') (classText element) := by
    rw [truth]
    exact wordStands_iff_mem_words nonempty solid
  refine ⟨expression, value, parsed, evaluated, kept, word, fun stands => ?_, fun spaces => ?_⟩
  · refine hasClass_iff_mem_words.2 (Text.mem_words_of_finer (fun c space => ?_) solid (word.1 stands))
    rw [beq_iff_eq.1 space]
    decide
  · rw [truth]
    exact (hasClass_eq_wordStands spaces nonempty solid).symm

/-- The class in a negation stands at the end of the attribute, behind a class that it is a part of. -/
theorem classTest_iff_mem_words_of_negation : ∃ group expression value, ∃ element : Element,
    group ∈ (parse "p:not(.b)").value ∧ "b" ∈ group.classNames ∧
    (Markup.load "<p class='ab  b'>").value.element? 1 = some element ∧
    Path.parse (classTest "b") = .ok expression ∧
    Path.evaluateAt (Markup.load "<p class='ab  b'>").value 1 expression = .ok value ∧
    (∀ position, Path.isKept position value = value.toBoolean) ∧
    (∀ c ∈ classText element, Text.isAsciiBlank c = true → c = ' ') ∧
    value.toBoolean = true ∧ element.hasClass "b" = true := by
  let group : Group := ⟨"p:not(.b)",
    [⟨.descendant, { tag := "p" }, [.negation { classes := ["b"] }]⟩], none⟩
  let element : Element := ⟨"p", .ofPairs [("class", "ab  b")]⟩
  have read : group ∈ (parse "p:not(.b)").value := by decide
  have asked : "b" ∈ group.classNames := by decide
  have held : (Markup.load "<p class='ab  b'>").value.element? 1 = some element := by decide +kernel
  have spaces : ∀ c ∈ classText element, Text.isAsciiBlank c = true → c = ' ' := by
    have all : (classText element).all (fun c => !Text.isAsciiBlank c || c == ' ') = true := by decide
    intro c member blank
    simpa [blank] using List.all_eq_true.1 all c member
  have known : element.hasClass "b" = true := by decide
  obtain ⟨expression, value, parsed, evaluated, kept, -, -, agrees⟩ :=
    classTest_iff_mem_words "<p class='ab  b'>" read asked held
  exact ⟨group, expression, value, element, read, asked, held, parsed, evaluated, kept, spaces,
    (agrees spaces).trans known, known⟩

/-- A tab parts the classes of an element, but the test for one of them looks for spaces. -/
theorem classTest_misses_of_tab : ∃ group, ∃ element : Element,
    group ∈ (parse ".a").value ∧ "a" ∈ group.classNames ∧
    (Markup.load "<p class='a\tb'></p>").value.element? 1 = some element ∧
    element.hasClass "a" = true ∧
    (Path.parse (classTest "a") >>= Path.evaluateAt (Markup.load "<p class='a\tb'></p>").value 1) =
      .ok (.boolean false) := by
  let group : Group := ⟨".a", [⟨.descendant, { classes := ["a"] }, []⟩], none⟩
  let element : Element := ⟨"p", .ofPairs [("class", "a\tb")]⟩
  have held : (Markup.load "<p class='a\tb'></p>").value.element? 1 = some element := by decide +kernel
  refine ⟨group, element, by decide, by decide, held, by decide, ?_⟩
  decide +kernel

end ElementQuery.Group

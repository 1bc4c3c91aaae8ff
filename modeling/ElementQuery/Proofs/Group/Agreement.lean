/-
This file shows that walking along a group and evaluating the expression that is written for it select
the same elements.
-/

import ElementQuery.Engine.Basic
import ElementQuery.Proofs.Group.Cache
import ElementQuery.Proofs.Group.Reading

namespace ElementQuery.Group

open ElementQuery.Path

/-- A pseudo-class has an expression for a tag name unless it asks for markup or counts the siblings of
an unknown name. -/
def PseudoClass.Translatable (tag : String) : PseudoClass → Prop
  | .first kin | .last kin | .only kin | .nth kin _ => Countable tag kin
  | .contains _ => False
  | .negation compound => compound.Named
  | .empty | .enabled | .disabled | .checked => True

/-- A step has an expression when its names and its pseudo-classes have one, no id is looked up in the
whole document and elements are exchanged at the beginning only. -/
structure Step.Translatable (step : Step) : Prop where
  named : step.compound.Named
  noId : step.combinator = .descendant → step.compound.id = none
  pseudos : ∀ pseudo ∈ step.pseudos, pseudo.Translatable step.compound.tag
  exchanges : step.ExchangesFirst

/-- What a step counts in a document, positions and characters, is less than two to the power of 52.
The expression counts it in `Binary64`, where the numbers beyond two to the power of 53 run together. -/
structure Step.Short (document : Document) (step : Step) : Prop where
  compound : step.compound.Short document
  pseudos : ∀ pseudo ∈ step.pseudos, pseudo.Short document

theorem Compound.Named.readable {compound : Compound} (named : compound.Named)
    (written : compound.Written) : compound.Readable := by
  refine ⟨named.tag, written.classes, ?_⟩
  intro filter member
  exact ⟨named.attributes filter member, written.attributes filter member⟩

theorem PseudoClass.Translatable.readable {tag : String} {pseudo : PseudoClass}
    (translatable : pseudo.Translatable tag) (written : pseudo.Written) : pseudo.Readable tag := by
  cases pseudo with
  | first kin | last kin | only kin => exact translatable
  | nth kin argument =>
      refine ⟨translatable, ?_⟩
      intro held same
      obtain rfl := same
      exact written
  | negation compound => exact Compound.Named.readable translatable written
  | contains text => exact translatable
  | empty | enabled | disabled | checked => trivial

variable {document : Document} {tag text : String} {scope : NodeId} {selected next : List NodeId}

/-- The tests of pseudo-classes hold together of the elements that meet all pseudo-classes. -/
theorem exists_tests (linked : document.Linked) (plain : document.Plain)
    (named : tag = "*" ∨ isPathName tag = true) (pseudos : List PseudoClass)
    (readable : ∀ pseudo ∈ pseudos, pseudo.Readable tag)
    (short : ∀ pseudo ∈ pseudos, pseudo.Short document) :
    ∃ tests : List (String × (NodeId → Bool)),
      tests.map Prod.fst = pseudos.filterMap (PseudoClass.pathTest? tag) ∧
      (∀ test ∈ tests, Meets document .and test.1 test.2) ∧
      ∀ id, (document.parent? id).isSome = true → document.hasTag id tag = true →
        (tests.all fun test => test.2 id) = pseudos.all fun pseudo => pseudo.holds document id := by
  induction pseudos with
  | nil => exact ⟨[], rfl, fun _ member => absurd member List.not_mem_nil, fun _ _ _ => rfl⟩
  | cons pseudo rest inductionHypothesis =>
      have first := readable pseudo List.mem_cons_self
      obtain ⟨tests, texts, meets, agree⟩ := inductionHypothesis
        (fun other member => readable other (List.mem_cons_of_mem _ member))
        (fun other member => short other (List.mem_cons_of_mem _ member))
      cases written : pseudo.pathTest? tag with
      | none =>
          refine ⟨tests, ?_, meets, fun id owned tagged => ?_⟩
          · rw [List.filterMap_cons_none written, texts]
          · rw [List.all_cons, agree id owned tagged,
              PseudoClass.holds_of_pathTest?_eq_none linked first written owned tagged, Bool.true_and]
      | some test =>
          obtain ⟨holds, met, same⟩ := PseudoClass.exists_test linked plain named first
            (short pseudo List.mem_cons_self) written
          refine ⟨(test, holds) :: tests, ?_, ?_, fun id owned tagged => ?_⟩
          · rw [List.filterMap_cons_some written, List.map_cons, texts]
          · intro other member
            rcases List.mem_cons.1 member with rfl | later
            · exact met
            · exact meets other later
          · rw [List.all_cons, List.all_cons, agree id owned tagged]
            show (holds id && _) = _
            rw [same id owned tagged]

section Combinators

variable {tests : List (String × (NodeId → Bool))}

/-- An axis with a tag name and tests leads on to the elements along it that have the name and meet the
tests. -/
theorem reaches_axis (axis : Axis) (along : axis ≠ .attribute)
    (named : tag = "*" ∨ isPathName tag = true)
    (each : ∀ test ∈ tests, Meets document .or test.1 test.2)
    (reaches : Reaches document text scope selected)
    (agrees : ∀ id, id ∈ next ↔ ∃ earlier ∈ selected, id ∈ axis.navigate document earlier ∧
      document.hasTag id tag = true ∧ (tests.all fun test => test.2 id) = true) :
    Reaches document (text ++ ("/" ++ (axis.name ++ "::" ++ tag ++
      String.join (tests.map fun test => "[" ++ test.1 ++ "]")))) scope next := by
  have elements : ∀ id, (tagTest tag).accepts document id = true → document.isElement id = true := by
    intro id accepted
    rw [accepts_tagTest] at accepted
    exact Document.isElement_of_hasTag accepted
  rw [← String.append_assoc]
  apply reaches.step (Leads.axis along (testPhrase_tagTest named) tests (.inr elements) each)
  intro id
  rw [agrees id]
  simp only [candidates, List.mem_filter, accepts_tagTest, and_assoc]

/-- The next element is the nearest one on the axis of following siblings. -/
theorem head?_followingSiblings (document : Document) (id : NodeId) :
    (candidates document .followingSibling .any id).head? = document.nextElement? id := by
  have element : ∀ other, NodeTest.any.accepts document other = document.isElement other := by
    intro other
    have accepted := @accepts_tagTest document "*" other
    rw [tagTest, if_pos rfl] at accepted
    rw [accepted, Document.hasTag_star]
  rw [candidates, List.head?_filter, Document.nextElement?]
  simp only [element]
  rfl

/-- A sign that spells one axis leads on along the axis. -/
theorem reaches_sign (axis : Axis) {sign : String} (along : axis ≠ .attribute)
    (spelled : sign = "/" ++ (axis.name ++ "::")) (named : tag = "*" ∨ isPathName tag = true)
    (each : ∀ test ∈ tests, Meets document .or test.1 test.2)
    (reaches : Reaches document text scope selected)
    (agrees : ∀ id, id ∈ next ↔ ∃ earlier ∈ selected, id ∈ axis.navigate document earlier ∧
      document.hasTag id tag = true ∧ (tests.all fun test => test.2 id) = true) :
    Reaches document (text ++ (sign ++ tag ++
      String.join (tests.map fun test => "[" ++ test.1 ++ "]"))) scope next := by
  have shape : ∀ further, "/" ++ (axis.name ++ "::") ++ tag ++ further =
      "/" ++ (axis.name ++ "::" ++ tag ++ further) := by
    intro further
    simp only [String.append_assoc]
  rw [spelled, shape]
  exact reaches_axis axis along named each reaches agrees

/-- The sign for the next element leads to the nearest element first, and asks for its name after that. -/
theorem reaches_nextElement (named : tag = "*" ∨ isPathName tag = true)
    (each : ∀ test ∈ tests, Meets document .or test.1 test.2)
    (reaches : Reaches document text scope selected)
    (agrees : ∀ id, id ∈ next ↔ ∃ earlier ∈ selected, document.nextElement? earlier = some id ∧
      document.hasTag id tag = true ∧ (tests.all fun test => test.2 id) = true) :
    Reaches document (text ++ ("/following-sibling::*[1]/self::" ++ tag ++
      String.join (tests.map fun test => "[" ++ test.1 ++ "]"))) scope next := by
  have nearest : Reaches document
      (text ++ "/" ++ (Axis.followingSibling.name ++ "::" ++ "*" ++ "[1]")) scope
      (selected.filterMap document.nextElement?) := by
    apply reaches.step (Leads.nearest (by decide) TestPhrase.any)
    intro id
    simp only [head?_followingSiblings, List.mem_filterMap, Option.mem_toList]
  have asked := @reaches_sign document tag _ scope _ next tests .itself "/self::" (by decide) (by decide)
    named each nearest (by
      intro id
      rw [agrees id]
      simp only [Axis.navigate, List.mem_filterMap, List.mem_singleton]
      constructor
      · intro given
        obtain ⟨earlier, member, found, met⟩ := given
        exact ⟨id, ⟨earlier, member, found⟩, rfl, met⟩
      · intro given
        obtain ⟨other, ⟨earlier, member, found⟩, rfl, met⟩ := given
        exact ⟨earlier, member, found, met⟩)
  have spelled : "/following-sibling::*[1]/self::" =
      "/" ++ (Axis.followingSibling.name ++ "::" ++ "*" ++ "[1]") ++ "/self::" := by
    decide
  have shape : ∀ first further : String, text ++ ("/" ++ first ++ "/self::" ++ tag ++ further) =
      text ++ "/" ++ first ++ ("/self::" ++ tag ++ further) := by
    intro first further
    simp only [String.append_assoc]
  rw [spelled, shape]
  exact asked

/-- What is written for a combinator leads to the elements in its places that have the tag name and
meet the tests. -/
theorem Combinator.reaches_pathStep (combinator : Combinator)
    (named : tag = "*" ∨ isPathName tag = true)
    (each : ∀ test ∈ tests, Meets document .or test.1 test.2)
    (reaches : Reaches document text scope selected)
    (agrees : ∀ id, id ∈ next ↔ ∃ earlier ∈ selected, id ∈ combinator.places document earlier ∧
      document.hasTag id tag = true ∧ (tests.all fun test => test.2 id) = true) :
    Reaches document (text ++ (combinator.pathStep tag ++
      String.join (tests.map fun test => "[" ++ test.1 ++ "]"))) scope next := by
  cases combinator with
  | descendant => exact reaches_sign .descendant (by decide) (by decide) named each reaches agrees
  | child => exact reaches_sign .child (by decide) (by decide) named each reaches agrees
  | general => exact reaches_sign .followingSibling (by decide) (by decide) named each reaches agrees
  | adjacent =>
      simp only [places, Option.mem_toList] at agrees
      exact reaches_nextElement named each reaches agrees

/-- The expression of a step has the tests for its demands and for its pseudo-classes in brackets. -/
theorem Step.pathText_eq {step : Step}
    (texts : tests.map Prod.fst =
      step.pseudos.filterMap (PseudoClass.pathTest? step.compound.tag)) :
    step.pathText = step.combinator.pathStep step.compound.tag ++
      String.join ((step.compound.demands document ++ tests).map fun test =>
        "[" ++ test.1 ++ "]") := by
  have all : (step.compound.demands document ++ tests).map Prod.fst =
      (step.compound.demands document).map Prod.fst ++ tests.map Prod.fst := List.map_append
  rw [Compound.map_fst_demands, texts] at all
  rw [pathText, ← all, List.map_map]
  rfl

/-- The expression of a step leads to the elements in its places that have its tag name, meet its demands
and pass the tests for its pseudo-classes. -/
theorem Step.reaches_pathText {step : Step} (named : step.compound.Named)
    (texts : tests.map Prod.fst =
      step.pseudos.filterMap (PseudoClass.pathTest? step.compound.tag))
    (meets : ∀ test ∈ tests, Meets document .and test.1 test.2)
    (reaches : Reaches document text scope selected)
    (agrees : ∀ id, id ∈ next ↔ ∃ earlier ∈ selected,
      id ∈ step.combinator.places document earlier ∧
        document.hasTag id step.compound.tag = true ∧
        ((step.compound.demands document ++ tests).all fun test => test.2 id) = true) :
    Reaches document (text ++ step.pathText) scope next := by
  have each : ∀ test ∈ step.compound.demands document ++ tests,
      Meets document .or test.1 test.2 := by
    intro test member
    rcases List.mem_append.1 member with demand | pseudo
    · exact (Compound.meets_demands named test demand).loosen (by decide)
    · exact (meets test pseudo).loosen (by decide)
  rw [pathText_eq texts]
  exact step.combinator.reaches_pathStep named.tag each reaches agrees

/-- An element meets a step when it has the tag name, meets the demands and passes the tests for the
pseudo-classes. -/
theorem Step.isMet_iff_tests (plain : document.Plain) {step : Step} {id : NodeId}
    (readable : step.compound.Readable) (short : step.compound.Short document)
    (agree : document.hasTag id step.compound.tag = true →
      (tests.all fun test => test.2 id) = step.pseudos.all fun pseudo => pseudo.holds document id) :
    step.isMet document id = true ↔ document.hasTag id step.compound.tag = true ∧
      ((step.compound.demands document ++ tests).all fun test => test.2 id) = true := by
  unfold isMet
  cases held : document.element? id with
  | none => simp [Document.hasTag, held]
  | some element =>
      have tag : document.hasTag id step.compound.tag = element.hasTag step.compound.tag := by
        rw [Document.hasTag, held, Option.any_some]
      rw [tag, List.all_append, Compound.all_demands plain readable short held,
        Option.any_some, Compound.holds, ← Bool.and_eq_true]
      cases tagged : element.hasTag step.compound.tag with
      | false => simp
      | true =>
          rw [agree (tag.trans tagged)]
          simp only [Bool.true_and]

end Combinators

/-- The expression of a step reaches what the step leads to. -/
theorem Step.reaches_follow (linked : document.Linked) (plain : document.Plain) {step : Step}
    (translatable : step.Translatable) (written : step.Written) (short : step.Short document)
    (reaches : Reaches document text scope selected) :
    Reaches document (text ++ step.pathText) scope (step.follow document selected) := by
  have readable := translatable.named.readable written.compound
  obtain ⟨tests, texts, meets, agree⟩ := exists_tests linked plain readable.tag step.pseudos
    (fun pseudo member => (translatable.pseudos pseudo member).readable
      (written.pseudos pseudo member)) short.pseudos
  apply reaches_pathText readable.named texts meets reaches
  intro id
  rw [mem_follow linked translatable.noId translatable.exchanges]
  have same : ∀ earlier, id ∈ step.combinator.places document earlier →
      (step.isMet document id = true ↔ document.hasTag id step.compound.tag = true ∧
        ((step.compound.demands document ++ tests).all fun test => test.2 id) = true) :=
    fun earlier place => isMet_iff_tests plain readable short.compound
      (agree id (Combinator.parent?_of_mem_places linked place))
  constructor
  · intro given
    obtain ⟨earlier, member, place, met⟩ := given
    exact ⟨earlier, member, place, (same earlier place).1 met⟩
  · intro given
    obtain ⟨earlier, member, place, met⟩ := given
    exact ⟨earlier, member, place, (same earlier place).2 met⟩

/-- When the expression of each step reaches what the step leads to, the expression of all of them reaches
what they lead to one after the other. -/
theorem reaches_foldl_follow (steps : List Step)
    (each : ∀ step ∈ steps, ∀ {text : String} {selected : List NodeId},
      Reaches document text scope selected →
        Reaches document (text ++ step.pathText) scope (step.follow document selected))
    (reaches : Reaches document text scope selected) :
    Reaches document (text ++ String.join (steps.map Step.pathText)) scope
      (steps.foldl (Step.follow document) selected) := by
  induction steps generalizing text selected with
  | nil => simpa using reaches
  | cons step rest inductionHypothesis =>
      rw [List.map_cons, String.join_cons, ← String.append_assoc]
      exact inductionHypothesis (fun other member => each other (List.mem_cons_of_mem _ member))
        (each step List.mem_cons_self reaches)

/-- A scope is a node of the document. -/
theorem node?_isSome_of_isScope (inside : Engine.isScope document scope = true) :
    (document.node? scope).isSome = true := by
  unfold Engine.isScope at inside
  cases held : document.content? scope with
  | none =>
      rw [held] at inside
      cases inside
  | some content => exact Document.node?_isSome_iff.2 (Document.lt_size_of_content? held)

/-- In every reachable document whose attribute names hold no capitals and whose classes are separated
by spaces only, the expression of every translatable group that is read can be evaluated at every scope,
and it selects the elements that are found by walking along the group, as long as positions and lengths
are numbers of fewer than 53 binary digits. -/
theorem select_pathText {document : Document} (reachable : document.Reachable)
    (smallNames : ∀ id element, document.element? id = some element →
      ∀ name ∈ element.attributes.names, ∀ c ∈ name.toList, c.isUpper = false)
    (spaces : ∀ id value, document.attribute? id "class" = some value →
      ∀ c ∈ value.toList, Text.isAsciiBlank c = true → c = ' ')
    {scope : NodeId} (inside : Engine.isScope document scope = true) {query : String} {group : Group}
    (read : group ∈ (parse query).value) (wellFormed : group.isMalformed = false)
    (translatable : ∀ step ∈ group.steps, step.Translatable)
    (short : ∀ step ∈ group.steps, step.Short document) :
    ∃ text nodes, group.pathText? = some text ∧ Path.select document text scope = .ok nodes ∧
      ∀ id, id ∈ nodes ↔ id ∈ group.selectAll document scope := by
  have linked := reachable.linked
  have plain : document.Plain := by
    intro id element held
    refine ⟨reachable.registered.distinctNames (Document.element?_eq_some_iff.1 held),
      smallNames id element held, ?_⟩
    intro value found
    apply spaces id value
    rw [attribute?_eq_get? held, found]
  have reaches := reaches_foldl_follow group.steps
    (fun step member {_ _} reached => step.reaches_follow linked plain (translatable step member)
      (written_parse read step member) (short step member) reached) (@Reaches.start document scope)
  obtain ⟨nodes, selected, same⟩ := reaches.select_eq linked (node?_isSome_of_isScope inside)
  refine ⟨_, nodes, ?_, selected, ?_⟩
  · rw [pathText?, wellFormed, if_neg Bool.false_ne_true]
  · rw [selectAll_eq_foldl, wellFormed, if_neg Bool.false_ne_true]
    exact same

/-- A progression, a negation and the end of an attribute lead to the last of three entries. -/
theorem select_pathText_of_three : ∃ document group text nodes, Document.Reachable document ∧
    group ∈ (parse "ul > li:nth-child(odd):not(.b) ~ li[lang$=US]").value ∧
    group.pathText? = some text ∧ Path.select document text 0 = .ok nodes ∧
    ∀ id, id ∈ nodes ↔ id = 4 := by
  let group : Group := ⟨"ul > li:nth-child(odd):not(.b) ~ li[lang$=US]",
    [⟨.descendant, { tag := "ul" }, []⟩,
      ⟨.child, { tag := "li" }, [.nth .any (.progression .odd), .negation { classes := ["b"] }]⟩,
      ⟨.general, { tag := "li", attributes := [⟨"lang", some (.ending, "US")⟩] }, []⟩], none⟩
  have read : (parse "ul > li:nth-child(odd):not(.b) ~ li[lang$=US]").value = [group] := by
    decide
  have ran : (Document.empty.run? [.createElement "ul" [], .createElement "li" [("class", "a")],
      .createElement "li" [("class", "b c")], .createElement "LI" [("lang", "en-US")], .append 0 1,
      .append 1 2, .append 1 3, .append 1 4]).any (fun document => document.size = 5 ∧
        Engine.isScope document 0 = true ∧ group.selectAll document 0 = [4] ∧
        ∀ id ∈ document.ids, ∀ element ∈ document.element? id,
          (∀ name ∈ element.attributes.names, (name.toList.all fun c => !c.isUpper) = true) ∧
          (∀ value ∈ element.attributes.get? "class",
            (value.toList.all fun c => !Text.isAsciiBlank c || c == ' ') = true) ∧
          ∀ value ∈ element.attributes.get? "lang", value.length < 2 ^ 52) = true := by
    decide
  obtain ⟨document, reachable, size, inside, walked, fits⟩ := Document.exists_reachable ran
  have known : ∀ id element, document.element? id = some element → id ∈ document.ids :=
    fun _ _ held => Document.mem_ids_of_content? (Document.element?_eq_some_iff.1 held)
  have attributes : ∀ name id value, document.attribute? id name = some value →
      ∃ element, document.element? id = some element ∧ id ∈ document.ids ∧
        element.attributes.get? name = some value := by
    intro name id value found
    obtain ⟨element, held, same⟩ := Option.bind_eq_some_iff.1 found
    exact ⟨element, held, known id element held, same⟩
  have few : ∀ id, (document.children id).length < 2 ^ 52 := by
    intro id
    have bounded := reachable.linked.length_children_le id
    rw [size] at bounded
    exact Nat.lt_of_le_of_lt bounded (by decide)
  have translatable : ∀ step ∈ group.steps, step.Translatable := by
    intro step member
    simp only [group, List.mem_cons, List.not_mem_nil, or_false] at member
    rcases member with rfl | rfl | rfl
    · exact ⟨⟨.inr (by decide), by simp⟩, fun _ => rfl, by simp, by simp [Step.ExchangesFirst]⟩
    · refine ⟨⟨.inr (by decide), by simp⟩, fun _ => rfl, ?_, ?_⟩
      · simp only [List.forall_mem_cons]
        exact ⟨(fun known => by cases known), ⟨.inl rfl, by simp⟩, by simp⟩
      · rintro (_ | _ | index) pseudo place exchange
        · exact ⟨rfl, .inr rfl, rfl, rfl, rfl⟩
        · cases place
          cases exchange
        · cases place
    · refine ⟨⟨.inr (by decide), by simp +decide⟩, ?_, by simp, by simp [Step.ExchangesFirst]⟩
      intro way
      cases way
  have short : ∀ step ∈ group.steps, step.Short document := by
    intro step member
    simp only [group, List.mem_cons, List.not_mem_nil, or_false] at member
    rcases member with rfl | rfl | rfl
    · exact ⟨by simp [Compound.Short], by simp⟩
    · refine ⟨by simp [Compound.Short], ?_⟩
      simp only [List.forall_mem_cons]
      exact ⟨fun _ => few, by simp [PseudoClass.Short, Compound.Short], by simp⟩
    · refine ⟨?_, by simp⟩
      intro filter place _ id value found
      rw [List.mem_singleton.1 place] at found
      obtain ⟨element, held, place, same⟩ := attributes "lang" id value found
      exact (fits id place element held).2.2 value same
  have smallNames : ∀ id element, document.element? id = some element →
      ∀ name ∈ element.attributes.names, ∀ c ∈ name.toList, c.isUpper = false := by
    intro id element held name member c letter
    have small := (fits id (known id element held) element held).1 name member
    simpa using List.all_eq_true.1 small c letter
  have spaces : ∀ id value, document.attribute? id "class" = some value →
      ∀ c ∈ value.toList, Text.isAsciiBlank c = true → c = ' ' := by
    intro id value found c letter blank
    obtain ⟨element, held, place, same⟩ := attributes "class" id value found
    have plain := List.all_eq_true.1 ((fits id place element held).2.1 value same) c letter
    simpa [blank] using plain
  obtain ⟨text, nodes, written, selected, same⟩ := select_pathText reachable smallNames spaces
    inside (by rw [read]; exact List.mem_singleton_self group) rfl translatable short
  refine ⟨document, group, text, nodes, reachable, ?_, written, selected, ?_⟩
  · rw [read]
    exact List.mem_singleton_self group
  · intro id
    rw [same, walked, List.mem_singleton]

end ElementQuery.Group

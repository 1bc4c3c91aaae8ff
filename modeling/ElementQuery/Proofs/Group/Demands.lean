/-
This file says what the tests written for the demands of a compound ask of an element, and shows that in
plain documents they hold of the elements that meet the demands.
-/

import ElementQuery.Group.PathText
import ElementQuery.Proofs.Document.Register
import ElementQuery.Proofs.Group.Following
import ElementQuery.Proofs.Group.Literals
import ElementQuery.Proofs.Path.Counting
import ElementQuery.Proofs.Path.Endings

namespace ElementQuery

/-- The attribute names of an element are distinct and hold no ASCII capitals, and no ASCII blank but
the space stands in its classes. -/
structure Element.Plain (element : Element) : Prop where
  distinctNames : element.attributes.names.Nodup
  smallNames : ∀ name ∈ element.attributes.names, ∀ c ∈ name.toList, c.isUpper = false
  plainClasses : ∀ value, element.attributes.get? "class" = some value →
    ∀ c ∈ value.toList, Text.isAsciiBlank c = true → c = ' '

/-- All elements of a document are plain. -/
def Document.Plain (document : Document) : Prop :=
  ∀ id element, document.element? id = some element → element.Plain

namespace Path

variable {document : Document} {name text : String}

/-- Of the entries with distinct names in small letters, the one that is looked up is selected. -/
theorem filter_sameLetters_eq {entries : List (String × String)}
    (distinct : (entries.map Prod.fst).Nodup)
    (small : ∀ other ∈ entries.map Prod.fst, Text.lower other = other)
    (wanted : Text.lower name = name) :
    (entries.filter fun entry => Text.sameLetters entry.1 name).map Prod.snd =
      (Attributes.lookup? name entries).toList := by
  induction entries with
  | nil => rfl
  | cons entry entries inductionHypothesis =>
      obtain ⟨fresh, others⟩ := List.nodup_cons.1 distinct
      have later := inductionHypothesis others fun other member =>
        small other (List.mem_cons_of_mem _ member)
      have letters : Text.sameLetters entry.1 name = decide (entry.1 = name) := by
        rw [Bool.eq_iff_iff, Text.sameLetters_iff, wanted, small entry.1 List.mem_cons_self,
          decide_eq_true_iff]
      rw [Attributes.lookup?]
      split
      · rename_i same
        rw [List.filter_cons_of_pos (by rw [letters, decide_eq_true same]), List.map_cons, later,
          Option.toList_some]
        have absent : Attributes.lookup? name entries = none := by
          rw [← same, Option.eq_none_iff_forall_not_mem]
          intro value found
          exact fresh (Attributes.lookup?_isSome.1 (by rw [found]; rfl))
        rw [absent]
        rfl
      · rename_i different
        rw [List.filter_cons_of_neg (by rw [letters]; simpa using different), later]

/-- The values at a name in small letters are those of the attribute of an element whose attributes have
distinct names in small letters. -/
theorem valuesAt_eq {id : NodeId} {element : Element} (held : document.element? id = some element)
    (distinct : element.attributes.names.Nodup)
    (small : ∀ other ∈ element.attributes.names, ∀ c ∈ other.toList, c.isUpper = false)
    (wanted : Text.lower name = name) :
    valuesAt document name id = (element.attributes.get? name).toList := by
  rw [valuesAt, attributeValues, List.flatMap_singleton, held, Option.toList_some,
    List.flatMap_singleton]
  exact filter_sameLetters_eq distinct
    (fun other member => Text.lower_of_small (small other member)) wanted

/-- A text between quotes that it does not contain. -/
theorem Means.quoted {quote : Char} {written : String} (isQuote : quote = '\x22' ∨ quote = '\x27')
    (spelled : written.toList = quote :: (text.toList ++ [quote])) (plain : quote ∉ text.toList) :
    Means document .primary written fun _ value => value = .text text :=
  ⟨_, Phrase.quoted isQuote spelled plain, fun _ _ _ => ⟨_, rfl, rfl⟩⟩

/-- What is a text tells the text. -/
theorem Means.tells {value : String}
    (means : Means document .primary text fun _ found => found = .text value) :
    Tells document .or text fun _ => value := by
  apply Means.value (means.loosen (by decide))
  intro id _
  rfl

end Path

namespace Group

open ElementQuery.Path

variable {document : Document}

/-- A literal is its text, whichever quotes the text contains. -/
theorem means_literal (text : String) :
    Means document .primary (literal text) fun _ value => value = .text text := by
  obtain ⟨expression, phrase, -, evaluates⟩ := exists_phrase_literal text
  exact Means.of_evaluate phrase fun context _ _ => ⟨.text text, evaluates context, rfl⟩

/-- The text in which an element lists its classes; it is empty when there is none. -/
def classText (element : Element) : List Char := ((element.attributes.get? "class").getD "").toList

/-- The classes of an element are the words of their text between ASCII blanks. -/
theorem hasClass_iff_mem_words {element : Element} {name : String} :
    element.hasClass name = true ↔ name.toList ∈ Text.words Text.isAsciiBlank (classText element) := by
  rw [Element.hasClass, Element.classes, List.contains_iff_mem, List.mem_map]
  constructor
  · rintro ⟨word, member, rfl⟩
    rwa [String.toList_ofList]
  · intro member
    exact ⟨name.toList, member, String.ofList_toList⟩

/-- Whether a name stands between spaces in the first of several values. -/
def wordStands (name : String) (values : List String) : Bool :=
  Text.occurs (' ' :: (name.toList ++ [' '])) (' ' :: ((values.head?.getD "").toList ++ [' ']))

/-- A name without blanks stands between spaces when it is a word between spaces. -/
theorem wordStands_iff_mem_words {element : Element} {name : String} (nonempty : name ≠ "")
    (solid : ∀ c ∈ name.toList, Text.isAsciiBlank c = false) :
    wordStands name (element.attributes.get? "class").toList = true ↔
      name.toList ∈ Text.words (· == ' ') (classText element) := by
  have noSpace : ' ' ∉ name.toList := fun member => absurd (solid _ member) (by decide)
  rw [Text.mem_words_iff_occurs (by simpa using nonempty) noSpace, wordStands, classText]
  cases element.attributes.get? "class" <;> rfl

/-- The words between spaces are those between ASCII blanks when no other blank stands in the text. -/
theorem hasClass_eq_wordStands {element : Element} {name : String}
    (spaces : ∀ c ∈ classText element, Text.isAsciiBlank c = true → c = ' ') (nonempty : name ≠ "")
    (solid : ∀ c ∈ name.toList, Text.isAsciiBlank c = false) :
    element.hasClass name = wordStands name (element.attributes.get? "class").toList := by
  have breaks : ∀ c ∈ classText element, Text.isAsciiBlank c = (c == ' ') := by
    intro c member
    rw [Bool.eq_iff_iff, beq_iff_eq]
    exact ⟨spaces c member, fun same => by rw [same]; decide⟩
  rw [Bool.eq_iff_iff, hasClass_iff_mem_words, Text.words_congr breaks,
    wordStands_iff_mem_words nonempty solid]

theorem forall_mem_classText {element : Element} (plain : element.Plain) :
    ∀ c ∈ classText element, Text.isAsciiBlank c = true → c = ' ' := by
  intro c member
  rw [classText] at member
  cases held : element.attributes.get? "class" with
  | none => simp [held] at member
  | some value =>
      rw [held] at member
      exact plain.plainClasses value held c member

/-- A class test asks for the class between spaces. -/
theorem meets_classTest (name : String) :
    Meets document .primary (classTest name) fun id => wordStands name (valuesAt document "class" id) := by
  have blank : Tells document .or "' '" fun _ => " " :=
    (Means.quoted (.inr rfl) rfl (by decide)).tells
  have classes := @Tells.attribute document "class" (by decide)
  have padded : Tells document .or "concat(' ', @class, ' ')" fun id =>
      " " ++ (valuesAt document "class" id).head?.getD "" ++ " " := by
    have joined := @Tells.concat document [("' '", fun _ => " "),
      ("@class", fun id => (valuesAt document "class" id).head?.getD ""), ("' '", fun _ => " ")]
      (by simp) (by simpa [blank] using classes)
    apply Means.value (joined.loosen (by decide))
    intro id _
    show String.join [" ", (valuesAt document "class" id).head?.getD "", " "] = _
    simp [String.append_assoc]
  have wanted : Tells document .or (literal (" " ++ name ++ " ")) fun _ => " " ++ name ++ " " :=
    (means_literal _).tells
  apply (padded.contains wanted).congr
  intro id _ _
  simp [wordStands]

/-- What a filter asks for is a length when it tests the end of a value. -/
def AttributeFilter.measures (filter : AttributeFilter) : Bool :=
  filter.test.any fun test => test.1 == .ending && test.2 != ""

/-- The name of a filter is written in small letters. -/
structure AttributeFilter.Readable (filter : AttributeFilter) : Prop where
  valid : isPathName filter.name = true
  small : Text.lower filter.name = filter.name

theorem attribute?_eq_get? {name : String} {id : NodeId} {element : Element}
    (held : document.element? id = some element) :
    document.attribute? id name = element.attributes.get? name := by
  rw [Document.attribute?, held]
  rfl

/-- What the test that is written for an operator asks of the values of an attribute. -/
def Operator.passes (values : List String) (wanted : String) (operator : Operator) : Bool :=
  if wanted = "" then operator != .exact && values.any (· != "")
  else
    let first := values.head?.getD ""
    match operator with
    | .exact => values.any (· == wanted)
    | .beginning => wanted.toList.isPrefixOf first.toList
    | .ending => cutEnding first.toList wanted.length == wanted.toList
    | .substring => Text.occurs wanted.toList first.toList

/-- What the test that is written for a filter asks of the values of its attribute. -/
def AttributeFilter.passes (filter : AttributeFilter) (values : List String) : Bool :=
  match filter.test with
  | none => values.any (· != "")
  | some (operator, wanted) => operator.passes values wanted

section Tests

variable {name wanted : String} {operator : Operator} {filter : AttributeFilter}
  {found : Option String} {element : Element}

theorem meets_presenceTest (valid : isPathName name = true) :
    Meets document .equality (presenceTest name) fun id =>
      (valuesAt document name id).any (· != "") := by
  have empty : Means document .primary "''" fun _ value => value = .text "" :=
    Means.quoted (.inr rfl) rfl (by decide)
  have shape : presenceTest name = "@" ++ name ++ " != " ++ "''" := by
    apply String.toList_inj.1
    simp [presenceTest]
  rw [shape]
  exact Meets.attributeUnequal valid empty

theorem meets_valueTest (valid : isPathName name = true) :
    Meets document .equality (valueTest name wanted operator) fun id =>
      operator.passes (valuesAt document name id) wanted := by
  by_cases empty : wanted = ""
  · subst empty
    cases operator with
    | exact => exact Meets.falsehood.loosen (by decide)
    | beginning | ending | substring => exact meets_presenceTest valid
  · have tells := @Tells.attribute document name valid
    have text := @means_literal document wanted
    unfold Operator.passes
    cases operator with
    | exact =>
        rw [valueTest, if_neg empty]
        simp only [if_neg empty]
        exact Meets.attributeEqual valid text
    | beginning =>
        have shape : valueTest name wanted .beginning =
            "starts-with(" ++ ("@" ++ name) ++ ", " ++ literal wanted ++ ")" := by
          rw [valueTest, if_neg empty]
          simp [← String.toList_inj]
        rw [shape]
        simp only [if_neg empty]
        exact (tells.startsWith text.tells).loosen (by decide)
    | ending =>
        have shape : valueTest name wanted .ending = "substring(" ++ ("@" ++ name) ++
            ", string-length(" ++ ("@" ++ name) ++ ") - " ++ toString wanted.length ++ " + 1) = " ++
            literal wanted := by
          rw [valueTest, if_neg empty]
          simp [← String.toList_inj]
        rw [shape]
        simp only [if_neg empty]
        exact tells.endEqual text
    | substring =>
        have shape : valueTest name wanted .substring =
            "contains(" ++ ("@" ++ name) ++ ", " ++ literal wanted ++ ")" := by
          rw [valueTest, if_neg empty]
          simp [← String.toList_inj]
        rw [shape]
        simp only [if_neg empty]
        exact (tells.contains text.tells).loosen (by decide)

/-- The test that is written for a filter asks for the values that pass. -/
theorem AttributeFilter.meets_pathTest (valid : isPathName filter.name = true) :
    Meets document .equality filter.pathTest fun id =>
      filter.passes (valuesAt document filter.name id) := by
  unfold pathTest passes
  cases filter.test with
  | none => exact meets_presenceTest valid
  | some test => exact meets_valueTest valid

theorem meets_idTest (name : String) :
    Meets document .equality (idTest name) fun id => (valuesAt document "id" id).any (· == name) := by
  have shape : idTest name = "@" ++ "id" ++ " = " ++ literal name := by
    simp [idTest]
  rw [shape]
  exact Meets.attributeEqual (by decide) (means_literal name)

/-- In plain documents, an attribute as a test has to be there. -/
theorem meets_hasAttribute (plain : document.Plain) (valid : isPathName name = true)
    (small : Text.lower name = name) :
    Meets document .primary ("@" ++ name) fun id => document.hasAttribute id name := by
  apply (Meets.attribute valid).congr
  intro id element held
  have fits := plain id element held
  rw [valuesAt_eq held fits.distinctNames fits.smallNames small, Document.hasAttribute,
    attribute?_eq_get? held]
  cases element.attributes.get? name <;> rfl

/-- An absent attribute is like an empty one for a relation in which the empty text is not. -/
theorem any_eq_getD (holds : String → Bool) (never : holds "" = false) (found : Option String) :
    holds (found.getD "") = found.any fun actual => actual != "" && holds actual := by
  cases found with
  | none => exact never
  | some actual =>
      by_cases empty : actual = ""
      · rw [empty]
        exact never
      · simp [empty]

theorem Operator.passes_empty : operator.passes found.toList "" =
    found.any fun actual => actual != "" && operator.holds actual "" := by
  simp only [Operator.holds_empty]
  cases operator <;> cases found <;> simp [passes]

/-- The only value of an attribute passes the test for another text when it is in the relation of the
operator, apart from endings. -/
theorem Operator.passes_eq_holds (nonempty : wanted ≠ "") (other : operator ≠ .ending) :
    operator.passes found.toList wanted = operator.holds (found.getD "") wanted := by
  rw [passes, if_neg nonempty]
  cases operator with
  | exact =>
      cases found with
      | none => exact (holds_of_empty .exact nonempty).symm
      | some actual => simp [holds]
  | ending => exact absurd rfl other
  | beginning | substring => cases found <;> rfl

theorem Operator.passes_ending (nonempty : wanted ≠ "") :
    Operator.ending.passes found.toList wanted =
      (cutEnding (found.getD "").toList wanted.length == wanted.toList) := by
  rw [passes, if_neg nonempty]
  cases found <;> rfl

/-- The value of an attribute passes a test when it is not empty and in the relation of the operator, as
long as the length of a value whose end is tested is exact. -/
theorem Operator.passes_toList (short : operator = .ending → wanted ≠ "" → ∀ actual ∈ found,
      actual.length < 2 ^ 52) : operator.passes found.toList wanted =
      found.any fun actual => actual != "" && operator.holds actual wanted := by
  by_cases empty : wanted = ""
  · rw [empty]
    exact passes_empty
  · rw [← any_eq_getD (fun actual => operator.holds actual wanted) (holds_of_empty operator empty)]
    by_cases last : operator = .ending
    · subst last
      have letters : wanted.toList ≠ [] := by simpa using empty
      have bounded : (found.getD "").toList.length < 2 ^ 52 := by
        cases held : found with
        | none => exact Nat.pow_pos (by decide)
        | some actual => exact short rfl empty actual held
      rw [passes_ending empty, holds, Bool.eq_iff_iff, beq_iff_eq, List.isSuffixOf_iff_suffix]
      exact cutEnding_eq_iff letters fun _ => bounded
    · exact passes_eq_holds empty last

/-- What passes a test is not empty and in the relation of the operator, however long it is. -/
theorem Operator.holds_of_passes (passed : operator.passes found.toList wanted = true) :
    (found.any fun actual => actual != "" && operator.holds actual wanted) = true := by
  by_cases measured : operator = .ending ∧ wanted ≠ ""
  · obtain ⟨rfl, nonempty⟩ := measured
    rw [passes_ending nonempty, beq_iff_eq] at passed
    rw [← any_eq_getD (fun actual => Operator.ending.holds actual wanted)
      (holds_of_empty .ending nonempty), holds, List.isSuffixOf_iff_suffix, ← passed]
    exact cutEnding_suffix _ _
  · rw [← passes_toList fun last nonempty => absurd ⟨last, nonempty⟩ measured]
    exact passed

theorem AttributeFilter.holds_eq_any : filter.holds element =
    (element.attributes.get? filter.name).any fun actual =>
      actual != "" && filter.test.all fun test => test.1.holds actual test.2 := by
  unfold holds
  cases element.attributes.get? filter.name <;> rfl

/-- An element meets a filter when the value of its attribute passes, as long as the length of a value whose
end is tested is exact. -/
theorem AttributeFilter.passes_eq_holds (short : filter.measures = true → ∀ value,
      element.attributes.get? filter.name = some value → value.length < 2 ^ 52) :
    filter.passes (element.attributes.get? filter.name).toList = filter.holds element := by
  rw [holds_eq_any, passes]
  cases test : filter.test with
  | none => cases element.attributes.get? filter.name <;> simp
  | some pair =>
      apply Operator.passes_toList
      intro last nonempty
      exact short (by simp [measures, test, last, nonempty])

/-- An element meets the filters that the value of its attribute passes. -/
theorem AttributeFilter.holds_of_passes
    (passed : filter.passes (element.attributes.get? filter.name).toList = true) :
    filter.holds element = true := by
  rw [passes] at passed
  rw [holds_eq_any]
  cases test : filter.test with
  | none =>
      rw [test] at passed
      cases held : element.attributes.get? filter.name with
      | none => simp [held] at passed
      | some actual => simpa [held] using passed
  | some pair =>
      rw [test] at passed
      exact Operator.holds_of_passes passed

end Tests

/-- A tag name in a selector is a node test in an expression. -/
def tagTest (tag : String) : NodeTest := if tag = "*" then .any else .name tag

theorem testPhrase_tagTest {tag : String} (readable : tag = "*" ∨ isPathName tag = true) :
    TestPhrase tag (tagTest tag) := by
  unfold tagTest
  split
  · rename_i star
    rw [star]
    exact TestPhrase.any
  · rename_i other
    exact TestPhrase.name (readable.resolve_left other)

/-- The node test of a tag name accepts the elements with the name. -/
theorem accepts_tagTest {tag : String} {id : NodeId} :
    (tagTest tag).accepts document id = document.hasTag id tag := by
  unfold tagTest Document.hasTag Document.element?
  by_cases star : tag = "*"
  · rw [if_pos star]
    rcases held : document.content? id with _ | content
    · simp [NodeTest.accepts, held]
    · cases content <;> simp [NodeTest.accepts, held, Element.hasTag, star]
  · rw [if_neg star]
    rcases held : document.content? id with _ | content
    · simp [NodeTest.accepts, held]
    · cases content <;> simp [NodeTest.accepts, held, Element.hasTag, star]

theorem all_eq_all {A : Type} {members : List A} {first second : A → Bool}
    (same : ∀ member ∈ members, first member = second member) :
    members.all first = members.all second := by
  rw [Bool.eq_iff_iff, List.all_eq_true, List.all_eq_true]
  exact forall₂_congr fun member known => by rw [same member known]

namespace Compound

/-- The demands of a compound but for the tag, each with its test. -/
def demands (document : Document) (compound : Compound) : List (String × (NodeId → Bool)) :=
  (compound.id.map fun name => (idTest name, fun id : NodeId =>
      (valuesAt document "id" id).any (· == name))).toList ++
    compound.classes.map (fun name => (classTest name, fun id : NodeId =>
      wordStands name (valuesAt document "class" id))) ++
    compound.attributes.map fun filter => (filter.pathTest, fun id : NodeId =>
      filter.passes (valuesAt document filter.name id))

/-- The tag name and the attribute names of a compound are names in expressions. -/
structure Named (compound : Compound) : Prop where
  tag : compound.tag = "*" ∨ isPathName compound.tag = true
  attributes : ∀ filter ∈ compound.attributes, isPathName filter.name = true

/-- The names in a compound can be written in an expression. -/
structure Readable (compound : Compound) : Prop where
  tag : compound.tag = "*" ∨ isPathName compound.tag = true
  classes : ∀ name ∈ compound.classes, name ≠ "" ∧ ∀ c ∈ name.toList, Text.isAsciiBlank c = false
  attributes : ∀ filter ∈ compound.attributes, filter.Readable

/-- Every value whose end a compound tests is shorter than two to the power of 52. -/
def Short (document : Document) (compound : Compound) : Prop :=
  ∀ filter ∈ compound.attributes, filter.measures = true → ∀ id value,
    document.attribute? id filter.name = some value → value.length < 2 ^ 52

variable {compound : Compound}

theorem Readable.named (readable : compound.Readable) : compound.Named :=
  ⟨readable.tag, fun filter member => (readable.attributes filter member).valid⟩

theorem map_fst_demands : (compound.demands document).map Prod.fst =
    (compound.id.map idTest).toList ++ compound.classes.map classTest ++
      compound.attributes.map AttributeFilter.pathTest := by
  cases held : compound.id <;> simp [demands, held, Function.comp_def]

/-- The tests that are written for the demands of a compound are read as such. -/
theorem meets_demands (named : compound.Named) :
    ∀ demand ∈ compound.demands document, Meets document .equality demand.1 demand.2 := by
  intro demand member
  rcases List.mem_append.1 member with member | member
  · rcases List.mem_append.1 member with member | member
    · obtain ⟨name, -, rfl⟩ := Option.map_eq_some_iff.1 (Option.mem_toList.1 member)
      exact meets_idTest name
    · obtain ⟨name, known, rfl⟩ := List.mem_map.1 member
      exact (meets_classTest name).loosen (by decide)
  · obtain ⟨filter, known, rfl⟩ := List.mem_map.1 member
    exact AttributeFilter.meets_pathTest (named.attributes filter known)

/-- In plain documents, an element passes the tests for the demands of a compound when it meets the
demands. -/
theorem all_demands (plain : document.Plain) (readable : compound.Readable)
    (short : compound.Short document) {id : NodeId} {element : Element}
    (held : document.element? id = some element) :
    ((compound.demands document).all fun demand => demand.2 id) =
      (compound.idHolds element && compound.filtersHold element) := by
  have fits := plain id element held
  have values : ∀ name, Text.lower name = name →
      valuesAt document name id = (element.attributes.get? name).toList := fun name wanted =>
    valuesAt_eq held fits.distinctNames fits.smallNames wanted
  have ids : ∀ name, (valuesAt document "id" id).any (· == name) = (element.id? == some name) := by
    intro name
    rw [values "id" (by decide), Element.id?]
    cases element.attributes.get? "id" <;> simp
  have classes : ∀ name ∈ compound.classes,
      wordStands name (valuesAt document "class" id) = element.hasClass name := by
    intro name member
    obtain ⟨nonempty, solid⟩ := readable.classes name member
    rw [values "class" (by decide)]
    exact (hasClass_eq_wordStands (forall_mem_classText fits) nonempty solid).symm
  have attributes : ∀ filter ∈ compound.attributes,
      filter.passes (valuesAt document filter.name id) = filter.holds element := by
    intro filter member
    rw [values filter.name (readable.attributes filter member).small]
    apply AttributeFilter.passes_eq_holds
    intro measured value found
    exact short filter member measured id value ((attribute?_eq_get? held).trans found)
  rw [demands, List.all_append, List.all_append, List.all_map, List.all_map, idHolds, filtersHold,
    Bool.and_assoc]
  congr 1
  · cases compound.id <;> simp [ids]
  · congr 1
    · exact all_eq_all classes
    · exact all_eq_all attributes

theorem meets_self {tag : String} (readable : tag = "*" ∨ isPathName tag = true) :
    Meets document .equality ("self::" ++ tag) fun id => document.hasTag id tag := by
  have leads := @Leads.plainAxis document tag (tagTest tag) .itself (by decide)
    (testPhrase_tagTest readable)
  apply (leads.meets.loosen (by decide)).congr
  intro id element _
  show (!([id].filter fun other => (tagTest tag).accepts document other).isEmpty) =
    document.hasTag id tag
  rw [← accepts_tagTest]
  cases kept : (tagTest tag).accepts document id <;> simp [kept]

/-- The tests that are written for a compound: for its tag, unless every tag is meant, and for its
demands. -/
def allDemands (document : Document) (compound : Compound) : List (String × (NodeId → Bool)) :=
  (if compound.tag = "*" then []
    else [("self::" ++ compound.tag, fun id => document.hasTag id compound.tag)]) ++
    compound.demands document

theorem all_allDemands (plain : document.Plain) (readable : compound.Readable)
    (short : compound.Short document) {id : NodeId} {element : Element}
    (held : document.element? id = some element) :
    ((compound.allDemands document).all fun demand => demand.2 id) = compound.holds element := by
  have tag : document.hasTag id compound.tag = element.hasTag compound.tag := by
    rw [Document.hasTag, held, Option.any_some]
  rw [allDemands, List.all_append, all_demands plain readable short held, holds]
  by_cases star : compound.tag = "*"
  · simp [star, Element.hasTag]
  · simp [star, tag, Bool.and_assoc]

/-- The test that is written for a compound asks for all its demands. -/
theorem meets_pathTest (named : compound.Named) :
    Meets document .and compound.pathTest fun id =>
      (compound.allDemands document).all fun demand => demand.2 id := by
  have texts : (compound.allDemands document).map Prod.fst =
      (if compound.tag = "*" then [] else ["self::" ++ compound.tag]) ++
        (compound.id.map idTest).toList ++ compound.classes.map classTest ++
        compound.attributes.map AttributeFilter.pathTest := by
    rw [allDemands, List.map_append, map_fst_demands]
    split <;> simp
  have each : ∀ demand ∈ compound.allDemands document,
      Meets document .equality demand.1 demand.2 := by
    intro demand member
    rcases List.mem_append.1 member with member | member
    · split at member
      · cases member
      · obtain rfl := List.mem_singleton.1 member
        exact meets_self named.tag
    · exact meets_demands named demand member
  unfold pathTest
  dsimp only
  rw [← texts]
  split
  · rename_i none
    have leads := @Leads.plainAxis document "node()" .node .itself (by decide) TestPhrase.node
    apply (leads.meets.loosen (by decide)).congr
    intro id element held
    rw [List.isEmpty_iff, List.map_eq_nil_iff] at none
    rw [none]
    show (!([id].filter fun other => NodeTest.node.accepts document other).isEmpty) = true
    have accepted : NodeTest.node.accepts document id = true := by
      simp [NodeTest.accepts, Document.element?_eq_some_iff.1 held]
    simp [accepted]
  · rename_i some
    have several : compound.allDemands document ≠ [] := by
      intro none
      simp [none] at some
    exact Meets.conjunction _ several each

end Compound

end Group

end ElementQuery

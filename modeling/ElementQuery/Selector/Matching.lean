/-
This file tells which elements of a document a selector selects.
-/

import ElementQuery.Document.Traversal
import ElementQuery.Selector.Reader

namespace ElementQuery.Selector

/-- A word of an attribute stands between ASCII blanks. -/
def isWordOf (value word : String) : Bool :=
  (Text.words Text.isAsciiBlank value.toList).contains word.toList

/-- A language is matched by itself and by its parts behind a hyphen. -/
def isLanguageOf (value language : String) : Bool :=
  value == language || (language.toList ++ ['-']).isPrefixOf value.toList

/-- An empty value is found in no attribute, but may be equal to one. -/
def AttributeTest.holds (attributes : Attributes) : AttributeTest → Bool
  | .exists name => attributes.contains name
  | .equals name value => attributes.get? name == some value
  | .hasWord name value => value != "" && (attributes.get? name).any (isWordOf · value)
  | .hasLanguage name value => (attributes.get? name).any (isLanguageOf · value)
  | .beginsWith name value =>
      value != "" && (attributes.get? name).any (value.toList.isPrefixOf ·.toList)
  | .endsWith name value =>
      value != "" && (attributes.get? name).any (value.toList.isSuffixOf ·.toList)
  | .contains name value =>
      value != "" && (attributes.get? name).any (Text.occurs value.toList ·.toList)

/-- Only comments and empty texts may hang below an empty element. -/
def isEmpty (document : Document) (id : NodeId) : Bool :=
  (document.children id).all fun child =>
    match document.content? child with
    | some (.text data) => data == ""
    | some (.comment _) => true
    | _ => false

/-- The place of an element among the element children of its parent that are of one kind, counted from one,
and the number of these children. -/
def siblingPosition? (document : Document) (id : NodeId) (sameKind : Element → Bool) :
    Option (Nat × Nat) :=
  (document.parent? id).bind fun parent =>
    let counted := (document.elementChildren parent).foldl (fun (counted : Option Nat × Nat) child =>
      if (document.element? child).any sameKind then
        (if child = id then some (counted.2 + 1) else counted.1, counted.2 + 1)
      else counted) (none, 0)
    counted.1.map fun index => (index, counted.2)

/-- All elements are of one kind, or those whose tag names are the same up to the case of ASCII letters. -/
def sameKind (element : Element) (kin : Kin) (other : Element) : Bool :=
  match kin with
  | .any => true
  | .sameTag => Text.sameLetters other.tag element.tag

/-- The places of an element from the front and from the back. -/
def positions? (document : Document) (id : NodeId) (element : Element) (kin : Kin) : Option (Nat × Nat) :=
  (siblingPosition? document id (sameKind element kin)).map fun found =>
    (found.1, found.2 - found.1 + 1)

def PseudoClass.holds (document : Document) (id : NodeId) (element : Element) :
    PseudoClass → Bool
  | .documentElement => document.documentElement? == some id
  | .first kin => (positions? document id element kin).any fun found => found.1 == 1
  | .last kin => (positions? document id element kin).any fun found => found.2 == 1
  | .only kin => positions? document id element kin == some (1, 1)
  | .nth .front kin progression =>
      (positions? document id element kin).any fun found => progression.contains found.1
  | .nth .back kin progression =>
      (positions? document id element kin).any fun found => progression.contains found.2
  | .empty => isEmpty document id
  | .link => ["a", "area"].contains element.tag && element.attributes.contains "href"
  | .checked =>
      element.attributes.contains (if element.tag = "option" then "selected" else "checked")
  | .disabled => element.attributes.contains "disabled"
  | .enabled => !element.attributes.contains "disabled"

mutual

/-- One condition holds of an element. -/
def Simple.holds (document : Document) (id : NodeId) (element : Element) : Simple → Bool
  | .tag name => Text.sameLetters element.tag name
  | .universal => true
  | .hasClass name => element.hasClass name
  | .id name => element.id? == some name
  | .attribute test => test.holds element.attributes
  | .pseudo pseudo => pseudo.holds document id element
  | .negation compounds => !someHolds document id element compounds
  | .never => false

/-- All conditions of a compound hold of an element. -/
def allHold (document : Document) (id : NodeId) (element : Element) : List Simple → Bool
  | [] => true
  | simple :: rest =>
      simple.holds document id element && allHold document id element rest

/-- Some compound has all its conditions hold of an element. -/
def someHolds (document : Document) (id : NodeId) (element : Element) :
    List (List Simple) → Bool
  | [] => false
  | compound :: rest =>
      allHold document id element compound || someHolds document id element rest

end

/-- A compound selects elements only. -/
def compoundHolds (document : Document) (compound : Compound) (id : NodeId) : Bool :=
  (document.element? id).any fun element => allHold document id element compound

/-- The elements that stand in the relation of a combinator to an element, the nearest first. -/
def candidates (document : Document) (id : NodeId) : Combinator → List NodeId
  | .descendant => document.ancestors id
  | .child => (document.parent? id).toList
  | .nextSibling => (document.previousElement? id).toList
  | .laterSibling => (document.precedingSiblings id).filter document.isElement

/-- Every candidate is tried for every link of a chain. -/
def chainHolds (document : Document) : List (Combinator × Compound) → NodeId → Bool
  | [], _ => true
  | (combinator, compound) :: rest, id =>
      (candidates document id combinator).any fun other =>
        compoundHolds document compound other && chainHolds document rest other

def Complex.holds (document : Document) (complex : Complex) (id : NodeId) : Bool :=
  compoundHolds document complex.subject id && chainHolds document complex.chain id

/-- A list of selectors selects what one of them selects. -/
def listHolds (document : Document) (selectors : List Complex) (id : NodeId) : Bool :=
  selectors.any fun complex => complex.holds document id

/-- The elements below a scope that a list of selectors selects, in document order; their neighbours
may lie outside the scope. -/
def selectAll (document : Document) (scope : NodeId) (text : String) :
    Except Error (List NodeId) :=
  (parse text).map fun selectors =>
    (document.descendants scope).filter (listHolds document selectors)

/-- The first element below a scope that a list of selectors selects. -/
def selectFirst (document : Document) (scope : NodeId) (text : String) :
    Except Error (Option NodeId) :=
  (parse text).map fun selectors =>
    (document.descendants scope).find? (listHolds document selectors)

/-- A node is selected wherever it hangs. -/
def selects (document : Document) (id : NodeId) (text : String) : Except Error Bool :=
  (parse text).map fun selectors => listHolds document selectors id

theorem allHold_eq_all (document : Document) (id : NodeId) (element : Element)
    (compound : Compound) :
    allHold document id element compound = compound.all (Simple.holds document id element) := by
  induction compound with
  | nil => rfl
  | cons simple rest inductionHypothesis => simp [allHold, inductionHypothesis]

theorem someHolds_eq_any (document : Document) (id : NodeId) (element : Element)
    (compounds : List Compound) :
    someHolds document id element compounds =
      compounds.any (allHold document id element) := by
  induction compounds with
  | nil => rfl
  | cons compound rest inductionHypothesis => simp [someHolds, inductionHypothesis]

/-- Selecting the first element is taking the head of all. -/
theorem selectFirst_eq_head (document : Document) (scope : NodeId) (text : String) :
    selectFirst document scope text = (selectAll document scope text).map List.head? := by
  unfold selectFirst selectAll
  cases parse text with
  | error fault => rfl
  | ok selectors => simp [Except.map, List.head?_filter]

end ElementQuery.Selector

/-
This file follows a step of a group through a document, from earlier elements to those to which it leads.
-/

import ElementQuery.Document.Order
import ElementQuery.Group.Reader
import ElementQuery.Markup.Writer

namespace ElementQuery

namespace Group

def Operator.holds (actual expected : String) : Operator → Bool
  | .exact => actual == expected
  | .beginning => expected.toList.isPrefixOf actual.toList
  | .ending => expected.toList.isSuffixOf actual.toList
  | .substring => Text.occurs expected.toList actual.toList

/-- An attribute that is absent or empty meets no filter. -/
def AttributeFilter.holds (filter : AttributeFilter) (element : Element) : Bool :=
  match element.attributes.get? filter.name with
  | none => false
  | some actual => actual != "" && filter.test.all fun test => test.1.holds actual test.2

namespace Compound

def idHolds (compound : Compound) (element : Element) : Bool :=
  compound.id.all fun id => element.id? == some id

def filtersHold (compound : Compound) (element : Element) : Bool :=
  compound.classes.all element.hasClass &&
    compound.attributes.all fun filter => filter.holds element

/-- All demands of a compound are met. -/
def holds (compound : Compound) (element : Element) : Bool :=
  element.hasTag compound.tag && compound.idHolds element && compound.filtersHold element

end Compound

/-- An element is the first element child of its parent. -/
def isFirstChild (document : Document) (id : NodeId) : Bool :=
  (document.parent? id).any fun parent => document.firstElementChild? parent == some id

def isLastChild (document : Document) (id : NodeId) : Bool :=
  (document.parent? id).any fun parent => document.lastElementChild? parent == some id

/-- One position asks for the child that stands there, and other arguments for the place of an element among
the children. Places are counted from one. -/
def Argument.picks (children : List NodeId) (id : NodeId) : Argument → Bool
  | .position 0 => false
  | .position (index + 1) => children[index]? == some id
  | argument => (children.idxOf? id).any fun index => argument.contains (index + 1)

/-- The place of an element among the children that share its tag name, counted from one, and the number of
these children. -/
def countOfType (document : Document) (id : NodeId) (children : List NodeId) : Option (Nat × Nat) :=
  let counted := children.foldl (fun (counted : Option Nat × Nat) child =>
    if document.sameTag child id then
      (if child = id then some (counted.2 + 1) else counted.1, counted.2 + 1)
    else counted) (none, 0)
  counted.1.map fun index => (index, counted.2)

def ofTypePosition? (document : Document) (id : NodeId) : Option (Nat × Nat) :=
  (document.parent? id).bind fun parent => countOfType document id (document.elementChildren parent)

/-- A pseudo-class is met by an element on its own. Every position is met even without a parent. -/
def PseudoClass.holds (document : Document) (id : NodeId) : PseudoClass → Bool
  | .first .any => isFirstChild document id
  | .last .any => isLastChild document id
  | .only .any => isFirstChild document id && isLastChild document id
  | .first .sameTag => (ofTypePosition? document id).any fun found => found.1 == 1
  | .last .sameTag => (ofTypePosition? document id).any fun found => found.1 == found.2
  | .only .sameTag => (ofTypePosition? document id).any fun found => found.2 == 1
  | .nth .any .every => true
  | .nth .any argument => (document.parent? id).any fun parent =>
      argument.picks (document.elementChildren parent) id
  | .nth .sameTag argument => (ofTypePosition? document id).any fun found => argument.contains found.1
  | .empty => (document.children id).isEmpty
  | .contains text => Text.occurs text.toList (Markup.inner document id).toList
  | .enabled => !document.hasAttribute id "disabled"
  | .disabled => document.hasAttribute id "disabled"
  | .checked => document.hasAttribute id "checked"
  | .negation compound => !(document.element? id).any compound.holds

/-- The progression by which a pseudo-class exchanges elements for their siblings, if it does. -/
def PseudoClass.exchange? : PseudoClass → Option Progression
  | .nth .any (.progression held) => some held
  | _ => none

/-- The children that share the tag name of an element and stand at positions of a progression. -/
def pickFrom (document : Document) (progression : Progression) (id : NodeId) (children : List NodeId) :
    List NodeId :=
  (children.zipIdx 1).filterMap fun (child, position) =>
    if progression.contains position && document.sameTag child id then some child else none

def siblingsAt (document : Document) (progression : Progression) (id : NodeId) : List NodeId :=
  (document.parent? id).toList.flatMap fun parent =>
    pickFrom document progression id (document.elementChildren parent)

/-- The siblings for which an element is exchanged lie in the row of one tag name below its parent. -/
def siblingRow? (document : Document) (id : NodeId) : Option (NodeId × String) :=
  (document.parent? id).bind fun parent =>
    (document.tag? id).map fun tag => (parent, Text.lower tag)

/-- Every candidate is exchanged, but a row that has been scanned is not scanned again. -/
def exchangeAll (document : Document) (progression : Progression) :
    List (NodeId × String) → List NodeId → List NodeId
  | _, [] => []
  | scanned, candidate :: rest =>
      match siblingRow? document candidate with
      | none => exchangeAll document progression scanned rest
      | some row =>
          if scanned.contains row then exchangeAll document progression scanned rest
          else siblingsAt document progression candidate ++
            exchangeAll document progression (row :: scanned) rest

/-- A pseudo-class keeps the elements that meet it, or exchanges each for siblings. -/
def PseudoClass.apply (document : Document) (candidates : List NodeId) (pseudo : PseudoClass) :
    List NodeId :=
  match pseudo.exchange? with
  | some progression => (exchangeAll document progression [] candidates).eraseDups
  | none => candidates.filter fun id => pseudo.holds document id

namespace Step

/-- An id is looked up in the whole document, whatever the tag name, and what is found has to lie
below an earlier element. -/
def reachBelow (document : Document) (step : Step) (previous : List NodeId) : List NodeId :=
  match step.compound.id with
  | some id => ((document.elementById? id).filter fun found =>
      previous.any fun earlier => document.isDescendantOf found earlier).toList
  | none => (previous.flatMap fun earlier =>
      document.elementsByTag earlier step.compound.tag).eraseDups

/-- The elements to which the combinator leads and which have the tag name. -/
def reach (document : Document) (step : Step) (previous : List NodeId) : List NodeId :=
  match step.combinator with
  | .descendant => step.reachBelow document previous
  | .child => (previous.flatMap document.elementChildren).filter fun id =>
      document.hasTag id step.compound.tag
  | .adjacent => (previous.filterMap document.nextElement?).filter fun id =>
      document.hasTag id step.compound.tag
  | .general => ((previous.flatMap document.followingSiblings).filter fun id =>
      document.hasTag id step.compound.tag).eraseDups

/-- The demands that the reach has not met yet: a step to descendants has already used its id. -/
def passes (document : Document) (step : Step) (id : NodeId) : Bool :=
  (document.element? id).any fun element =>
    (step.combinator == .descendant || step.compound.idHolds element) &&
      step.compound.filtersHold element

/-- The elements to which a step leads. -/
def follow (document : Document) (previous : List NodeId) (step : Step) : List NodeId :=
  step.pseudos.foldl (PseudoClass.apply document)
    ((step.reach document previous).filter (step.passes document))

/-- The first element to which a step leads; the others are not looked for unless a pseudo-class
exchanges elements. -/
def followFirst (document : Document) (previous : List NodeId) (step : Step) : Option NodeId :=
  if step.pseudos.any fun pseudo => pseudo.exchange?.isSome then
    (step.follow document previous).head?
  else (step.reach document previous).find? fun id =>
    step.passes document id && step.pseudos.all fun pseudo => pseudo.holds document id

end Step

end Group

end ElementQuery

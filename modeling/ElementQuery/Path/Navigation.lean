/-
This file follows axes through documents and tests the nodes found on them.
-/

import ElementQuery.Document.Order
import ElementQuery.Path.Expression

namespace ElementQuery.Path

/-- A node with all that hangs below it. -/
def subtree (document : Document) (id : NodeId) : List NodeId := id :: document.descendants id

/-- The node and its ancestors, the nearest first. -/
def lineage (document : Document) (id : NodeId) : List NodeId := id :: document.ancestors id

/-- What lies beside a node and each of its ancestors on one side, sibling after sibling, with all that hangs
below the siblings. -/
def flank (document : Document) (siblings : NodeId → List NodeId) (id : NodeId) : List NodeId :=
  (lineage document id).flatMap fun start => (siblings start).flatMap (subtree document)

/-- The nodes after a node that do not hang below it are sorted by comparing them two by two. -/
def following (document : Document) (id : NodeId) : List NodeId :=
  (flank document document.followingSiblings id).mergeSort fun first second =>
    (document.compareOrder first second).isLE

/-- The nodes before a node below which it does not hang are sorted by comparing them the other way round, so
that the nearest comes first. -/
def preceding (document : Document) (id : NodeId) : List NodeId :=
  (flank document document.precedingSiblings id).mergeSort fun first second =>
    (document.compareOrder second first).isLE

/-- The nodes on an axis, the nearest first. Attributes are no nodes. -/
def Axis.navigate (document : Document) (id : NodeId) : Axis → List NodeId
  | .child => document.children id
  | .descendant => document.descendants id
  | .descendantOrSelf => subtree document id
  | .parent => (document.parent? id).toList
  | .ancestor => document.ancestors id
  | .ancestorOrSelf => lineage document id
  | .followingSibling => document.followingSiblings id
  | .precedingSibling => document.precedingSiblings id
  | .following => Path.following document id
  | .preceding => Path.preceding document id
  | .itself => [id]
  | .attribute => []

/-- A star and a name select elements only, and the case of ASCII letters in names does not
matter. -/
def NodeTest.accepts (document : Document) (id : NodeId) (test : NodeTest) : Bool :=
  match test, document.content? id with
  | _, none => false
  | .node, some _ => true
  | .any, some (.element _) => true
  | .name wanted, some (.element element) => Text.sameLetters element.tag wanted
  | .text, some (.text _) => true
  | .comment, some (.comment _) => true
  | _, _ => false

/-- The nodes on an axis that pass a test. -/
def candidates (document : Document) (axis : Axis) (test : NodeTest) (id : NodeId) :
    List NodeId :=
  (axis.navigate document id).filter fun other => test.accepts document other

/-- An attribute is selected by its name or by a test for all nodes. -/
def NodeTest.acceptsAttribute (name : String) : NodeTest → Bool
  | .any | .node => true
  | .name wanted => Text.sameLetters name wanted
  | .text | .comment => false

/-- The values of the selected attributes of several nodes, in order. -/
def attributeValues (document : Document) (test : NodeTest) (nodes : List NodeId) :
    List String :=
  nodes.flatMap fun id => (document.element? id).toList.flatMap fun element =>
    (element.attributes.entries.filter fun entry => test.acceptsAttribute entry.1).map Prod.snd

end ElementQuery.Path

/-
This file holds the document: a table of nodes that name each other by their places in it.
-/

import ElementQuery.Document.Attributes
import ElementQuery.Text.Blank
import ElementQuery.Text.Search

namespace ElementQuery

/-- A node is named by its place in the table of its document. -/
abbrev NodeId := Nat

/-- An element has a tag name in small letters and a list of attributes. -/
structure Element where
  tag : String
  attributes : Attributes := {}
deriving DecidableEq, Repr

namespace Element

/-- A new element has its tag name put into small letters. -/
def named (tag : String) : Element := { tag := Text.lower tag }

def id? (element : Element) : Option String := element.attributes.get? "id"

/-- The classes are the words of the class attribute between ASCII blanks. -/
def classes (element : Element) : List String :=
  (Text.words Text.isAsciiBlank ((element.attributes.get? "class").getD "").toList).map
    String.ofList

def hasClass (element : Element) (name : String) : Bool := element.classes.contains name

/-- A star stands for every tag name, and the case of ASCII letters does not matter. -/
def hasTag (element : Element) (tag : String) : Bool :=
  tag == "*" || Text.sameLetters element.tag tag

end Element

inductive Content where
  | document
  | element (element : Element)
  | text (data : String)
  | comment (data : String)
deriving DecidableEq, Repr

/-- The id of an element; other nodes have none. -/
def Content.id? : Content → Option String
  | .element held => held.id?
  | _ => none

/-- A node has its content and its links to the nodes around it. -/
structure Node where
  content : Content
  parent : Option NodeId := none
  children : List NodeId := []
  previous : Option NodeId := none
  next : Option NodeId := none
deriving DecidableEq, Repr

/-- A document has its nodes in the order in which they were made and, for every element with an id,
an entry in the register of ids. -/
structure Document where
  nodes : Array Node
  register : List (String × NodeId)
deriving Repr

namespace Document

/-- The first node of every document is the document node. -/
def root : NodeId := 0

/-- A new document has its document node only. -/
def empty : Document := ⟨#[{ content := .document }], []⟩

def size (document : Document) : Nat := document.nodes.size

def node? (document : Document) (id : NodeId) : Option Node := document.nodes[id]?

/-- All nodes, whether or not they hang below the document node. -/
def ids (document : Document) : List NodeId := List.range document.size

def parent? (document : Document) (id : NodeId) : Option NodeId :=
  (document.node? id).bind Node.parent

def children (document : Document) (id : NodeId) : List NodeId :=
  ((document.node? id).map Node.children).getD []

def previous? (document : Document) (id : NodeId) : Option NodeId :=
  (document.node? id).bind Node.previous

def next? (document : Document) (id : NodeId) : Option NodeId :=
  (document.node? id).bind Node.next

def firstChild? (document : Document) (id : NodeId) : Option NodeId :=
  (document.children id).head?

def lastChild? (document : Document) (id : NodeId) : Option NodeId :=
  (document.children id).getLast?

def content? (document : Document) (id : NodeId) : Option Content :=
  (document.node? id).map Node.content

def element? (document : Document) (id : NodeId) : Option Element :=
  match document.content? id with
  | some (.element element) => some element
  | _ => none

def text? (document : Document) (id : NodeId) : Option String :=
  match document.content? id with
  | some (.text data) => some data
  | _ => none

def isElement (document : Document) (id : NodeId) : Bool := (document.element? id).isSome

def tag? (document : Document) (id : NodeId) : Option String :=
  (document.element? id).map Element.tag

def attribute? (document : Document) (id : NodeId) (name : String) : Option String :=
  (document.element? id).bind fun element => element.attributes.get? name

def hasAttribute (document : Document) (id : NodeId) (name : String) : Bool :=
  (document.attribute? id name).isSome

def hasTag (document : Document) (id : NodeId) (tag : String) : Bool :=
  (document.element? id).any fun element => element.hasTag tag

def elementChildren (document : Document) (id : NodeId) : List NodeId :=
  (document.children id).filter document.isElement

def firstElementChild? (document : Document) (id : NodeId) : Option NodeId :=
  (document.elementChildren id).head?

def lastElementChild? (document : Document) (id : NodeId) : Option NodeId :=
  (document.elementChildren id).getLast?

/-- The document element is the first element directly below the document node. -/
def documentElement? (document : Document) : Option NodeId :=
  document.firstElementChild? root

/-- The body is the first body or frameset directly below the document element. -/
def body? (document : Document) : Option NodeId :=
  document.documentElement?.bind fun html =>
    (document.elementChildren html).find? fun id =>
      document.hasTag id "body" || document.hasTag id "frameset"

@[simp] theorem size_empty : empty.size = 1 := rfl

theorem node?_eq_none_iff {document : Document} {id : NodeId} :
    document.node? id = none ↔ document.size ≤ id := by
  simp [node?, size]

theorem isElement_iff {document : Document} {id : NodeId} :
    document.isElement id = true ↔
      ∃ element, document.content? id = some (.element element) := by
  unfold isElement element?
  split
  · rename_i element shape
    simp [shape]
  · rename_i other
    simp only [Option.isSome_none, Bool.false_eq_true, false_iff]
    rintro ⟨element, shape⟩
    exact other element shape

end Document

end ElementQuery

/-
This file changes documents: nodes are made, hung up, taken down and given attributes.
-/

import ElementQuery.Document.Basic

namespace ElementQuery.Document

/-- One node is changed in its place; a name outside the table changes nothing. -/
def update (document : Document) (id : NodeId) (change : Node → Node) : Document :=
  { document with nodes := document.nodes.modify id change }

/-- An element is entered into the register under an id. -/
def enroll (document : Document) (name : String) (id : NodeId) : Document :=
  { document with register := document.register ++ [(name, id)] }

/-- The entries of an element under an id are struck out of the register. -/
def strike (document : Document) (name : String) (id : NodeId) : Document :=
  { document with register := document.register.filter fun entry => entry != (name, id) }

/-- A new node stands at the end of the table and hangs nowhere; an element with an id is entered
into the register. -/
def create (document : Document) (content : Content) : NodeId × Document :=
  let id := document.size
  let grown := { document with nodes := document.nodes.push { content } }
  (id, match content.id? with
    | some name => grown.enroll name id
    | none => grown)

/-- A new element has the given attributes, of which the last of one name wins. -/
def createElement (document : Document) (tag : String) (pairs : List (String × String)) :
    NodeId × Document :=
  document.create (.element { Element.named tag with attributes := Attributes.ofPairs pairs })

def createText (document : Document) (data : String) : NodeId × Document :=
  document.create (.text data)

def createComment (document : Document) (data : String) : NodeId × Document :=
  document.create (.comment data)

/-- The child leaves the children of its parent and its neighbours are joined; nothing happens when
it is no child of that parent. -/
def detach (document : Document) (parent child : NodeId) : Document :=
  if (document.children parent).contains child then
    let before := document.previous? child
    let after := document.next? child
    let emptied := document.update parent fun node =>
      { node with children := node.children.erase child }
    let freed := emptied.update child fun node =>
      { node with parent := none, previous := none, next := none }
    let joined := match before with
      | some id => freed.update id fun node => { node with next := after }
      | none => freed
    match after with
    | some id => joined.update id fun node => { node with previous := before }
    | none => joined
  else document

/-- The child becomes the last child of the parent; it has hung nowhere before. -/
def attach (document : Document) (parent child : NodeId) : Document :=
  let last := document.lastChild? parent
  let hung := document.update parent fun node => { node with children := node.children ++ [child] }
  let owned := hung.update child fun node => { node with parent := some parent }
  match last with
  | some id =>
      (owned.update id fun node => { node with next := some child }).update child fun node =>
        { node with previous := some id }
  | none => owned

/-- A child that hangs elsewhere is taken down first. Names outside the table are refused. -/
def append? (document : Document) (parent child : NodeId) : Option Document :=
  if parent < document.size ∧ child < document.size then
    let loose := match document.parent? child with
      | some old => document.detach old child
      | none => document
    some (loose.attach parent child)
  else none

/-- A parent outside the table is refused. -/
def remove? (document : Document) (parent child : NodeId) : Option Document :=
  if parent < document.size then some (document.detach parent child) else none

/-- The attributes of an element are changed, and other nodes stay as they are. -/
def putAttributes (document : Document) (id : NodeId) (attributes : Attributes) : Document :=
  document.update id fun node => match node.content with
    | .element element => { node with content := .element { element with attributes } }
    | _ => node

/-- An attribute is set; a new id is entered into the register after the old one is struck out. -/
def setAttribute (document : Document) (id : NodeId) (name value : String) : Document :=
  match document.element? id with
  | none => document
  | some element =>
      let (old, attributes) := element.attributes.insert name value
      let changed := document.putAttributes id attributes
      if name = "id" then
        let struck := match old with
          | some text => changed.strike text id
          | none => changed
        struck.enroll value id
      else changed

/-- An attribute is removed, and an id is struck out of the register with it. -/
def removeAttribute (document : Document) (id : NodeId) (name : String) : Document :=
  match document.element? id with
  | none => document
  | some element =>
      let (old, attributes) := element.attributes.remove name
      let changed := document.putAttributes id attributes
      match old with
      | some text => if name = "id" then changed.strike text id else changed
      | none => changed

theorem node?_update {document : Document} {id other : NodeId} {change : Node → Node} :
    (document.update id change).node? other =
      if id = other then (document.node? other).map change else document.node? other := by
  simp [update, node?, Array.getElem?_modify]

@[simp] theorem size_update {document : Document} {id : NodeId} {change : Node → Node} :
    (document.update id change).size = document.size := by
  simp [update, size]

@[simp] theorem size_create {document : Document} {content : Content} :
    (document.create content).2.size = document.size + 1 := by
  unfold create size enroll
  cases content.id? <;> simp

theorem node?_create {document : Document} {content : Content} {other : NodeId} :
    (document.create content).2.node? other =
      if other = document.size then some { content } else document.node? other := by
  unfold create node? size enroll
  cases content.id? <;> simp [Array.getElem?_push]

@[simp] theorem size_detach {document : Document} {parent child : NodeId} :
    (document.detach parent child).size = document.size := by
  unfold detach
  split
  · cases document.previous? child <;> cases document.next? child <;> simp
  · rfl

@[simp] theorem size_attach {document : Document} {parent child : NodeId} :
    (document.attach parent child).size = document.size := by
  unfold attach
  cases document.lastChild? parent <;> simp

end ElementQuery.Document

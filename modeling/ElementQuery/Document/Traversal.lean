/-
This file walks through documents along the stored links. Every walk is given as many steps as the
document has nodes, which is more than any walk in a tree needs.
-/

import ElementQuery.Document.Basic

namespace ElementQuery.Document

/-- From a first node on, the next one is taken until there is none or the steps are used up. -/
def chain (next : NodeId → Option NodeId) : Nat → Option NodeId → List NodeId
  | 0, _ => []
  | _, none => []
  | steps + 1, some id => id :: chain next steps (next id)

/-- The ancestors of a node, its parent first. -/
def ancestors (document : Document) (id : NodeId) : List NodeId :=
  chain document.parent? document.size (document.parent? id)

/-- The siblings before a node, the nearest first. -/
def precedingSiblings (document : Document) (id : NodeId) : List NodeId :=
  chain document.previous? document.size (document.previous? id)

/-- The siblings after a node, the nearest first. -/
def followingSiblings (document : Document) (id : NodeId) : List NodeId :=
  chain document.next? document.size (document.next? id)

/-- The node or the nearest of its ancestors with a next sibling yields that sibling, but the walk
does not climb past the top. -/
def climb? (document : Document) (top : NodeId) : Nat → NodeId → Option NodeId
  | 0, _ => none
  | steps + 1, id =>
      if id = top then none
      else match document.next? id with
        | some sibling => some sibling
        | none => (document.parent? id).bind (document.climb? top steps)

/-- After a node comes its first child, or else the next node outside of it. -/
def successor? (document : Document) (top id : NodeId) : Option NodeId :=
  match document.firstChild? id with
  | some child => some child
  | none => document.climb? top document.size id

/-- The nodes below a node in document order. -/
def descendants (document : Document) (id : NodeId) : List NodeId :=
  chain (document.successor? id) document.size (document.firstChild? id)

/-- The topmost ancestor of a node, or the node itself when it has none. -/
def top (document : Document) (id : NodeId) : NodeId :=
  (document.ancestors id).getLast?.getD id

/-- The nodes from the top down to a node. -/
def pathFromTop (document : Document) (id : NodeId) : List NodeId :=
  (document.ancestors id).reverse ++ [id]

def isDescendantOf (document : Document) (id ancestor : NodeId) : Bool :=
  (document.ancestors id).contains ancestor

def isInclusiveDescendantOf (document : Document) (id ancestor : NodeId) : Bool :=
  id == ancestor || document.isDescendantOf id ancestor

/-- A node is connected when it is the document node or hangs below it. -/
def isConnected (document : Document) (id : NodeId) : Bool :=
  document.isInclusiveDescendantOf id root

def nextElement? (document : Document) (id : NodeId) : Option NodeId :=
  (document.followingSiblings id).find? document.isElement

def previousElement? (document : Document) (id : NodeId) : Option NodeId :=
  (document.precedingSiblings id).find? document.isElement

def elementsByTag (document : Document) (scope : NodeId) (tag : String) : List NodeId :=
  (document.descendants scope).filter fun id => document.hasTag id tag

/-- The text of a text node is its data, and that of another node is the data of the text nodes
below it. -/
def textContent (document : Document) (id : NodeId) : String :=
  match document.text? id with
  | some data => data
  | none => String.join ((document.descendants id).filterMap document.text?)

/-- A chain holds its first node and then the chain from the next one. -/
theorem chain_some {next : NodeId → Option NodeId} {steps : Nat} {id : NodeId} :
    chain next (steps + 1) (some id) = id :: chain next steps (next id) := rfl

@[simp] theorem chain_none {next : NodeId → Option NodeId} {steps : Nat} :
    chain next steps none = [] := by
  cases steps <;> rfl

theorem length_chain {next : NodeId → Option NodeId} {steps : Nat} {start : Option NodeId} :
    (chain next steps start).length ≤ steps := by
  induction steps generalizing start with
  | zero => simp [chain]
  | succ steps inductionHypothesis =>
      cases start with
      | none => simp [chain]
      | some id => simpa [chain] using inductionHypothesis

end ElementQuery.Document

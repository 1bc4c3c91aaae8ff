/-
This file builds a document from markup. Every piece of the markup is placed below the innermost
element that is not closed yet.
-/

import ElementQuery.Document.Edit
import ElementQuery.Markup.Piece

namespace ElementQuery.Markup

/-- A start tag of these elements closes an open element of the same name. -/
def siblingTags : List String := ["li", "p", "option", "tr", "td", "th", "dt", "dd"]

/-- While a document grows, its open elements are known, the innermost first. -/
structure Loading where
  document : Document := .empty
  unclosed : List NodeId := []

namespace Loading

/-- The innermost open element, or the document node. -/
def innermost (loading : Loading) : NodeId := loading.unclosed.head?.getD Document.root

/-- A new node becomes the last child of a parent. -/
def addBelow (document : Document) (parent : NodeId) (content : Content) : NodeId × Document :=
  let made := document.create content
  (made.1, made.2.attach parent made.1)

/-- A new node becomes the last child of the innermost open element. -/
def add (loading : Loading) (content : Content) : NodeId × Loading :=
  let added := addBelow loading.document loading.innermost content
  (added.1, { loading with document := added.2 })

/-- A repeated element of a kind that has no place in itself closes the one before it. -/
def closeSibling (loading : Loading) (tag : String) : Loading :=
  if siblingTags.contains tag && loading.document.tag? loading.innermost == some tag then
    { loading with unclosed := loading.unclosed.drop 1 }
  else loading

/-- A void or closed element gets no content, and a raw element gets its own at once; every other
element stays open. -/
def startElement (loading : Loading) (tag : String) (attributes : List (String × String))
    (closed : Bool) (raw : Option (List Char)) : Loading :=
  let element := { Element.named tag with attributes := Attributes.ofPairs attributes }
  let (id, added) := (loading.closeSibling tag).add (.element element)
  if closed || isVoid tag then added
  else match raw with
    | some [] => added
    | some data =>
        { added with document := (addBelow added.document id (.text (String.ofList data))).2 }
    | none => { added with unclosed := id :: added.unclosed }

/-- The open elements outside the innermost one with a tag name. -/
def outside? (document : Document) (tag : String) : List NodeId → Option (List NodeId)
  | [] => none
  | id :: rest => if document.tag? id = some tag then some rest else outside? document tag rest

/-- An end tag closes the innermost open element of its name with all that is open inside. -/
def endElement (loading : Loading) (tag : String) : Warned Loading :=
  match outside? loading.document tag loading.unclosed with
  | some unclosed => pure { loading with unclosed }
  | none => do
      warn ("ignored unmatched end tag </" ++ tag ++ ">")
      return loading

/-- Text has its references decoded before it is placed. -/
def place (loading : Loading) : Piece → Warned Loading
  | .text data => pure (loading.add (.text (String.ofList (decode data)))).2
  | .comment data => pure (loading.add (.comment (String.ofList data))).2
  | .skipped => pure loading
  | .startTag tag attributes closed raw => pure (loading.startElement tag attributes closed raw)
  | .endTag tag => loading.endElement tag

/-- Pieces are placed one after the other; the warnings of a piece come before those of its
place. -/
def placeAll : Loading → List (Warned Piece) → Warned Loading
  | loading, [] => pure loading
  | loading, piece :: rest => do
      let piece ← piece
      let placed ← loading.place piece
      placeAll placed rest

end Loading

/-- Every text is markup for some document. -/
def load (text : String) : Warned Document := do
  let loading ← Loading.placeAll {} (pieces text.toList)
  return loading.document

end ElementQuery.Markup

/-
This file writes a document down as markup.
-/

import ElementQuery.Document.Basic
import ElementQuery.Markup.Reference

namespace ElementQuery.Markup

/-- These elements have no content and no end tag. -/
def voidTags : List String :=
  ["area", "base", "br", "col", "embed", "hr", "img", "input", "link", "meta", "source", "track",
    "wbr"]

def isVoid (tag : String) : Bool := voidTags.any fun entry => Text.sameLetters entry tag

/-- An attribute is written after a blank, and its value between double quotes. -/
def writeAttribute (entry : String × String) : List Char :=
  ' ' :: entry.1.toList ++ ['=', '\x22'] ++ escape true entry.2.toList ++ ['\x22']

def startTag (element : Element) : List Char :=
  '<' :: element.tag.toList ++ element.attributes.entries.flatMap writeAttribute ++ ['>']

def endTag (element : Element) : List Char :=
  '<' :: '/' :: element.tag.toList ++ ['>']

/-- A node is written around what is written for its children; the levels bound the depth. -/
def writeNode (document : Document) : Nat → NodeId → List Char
  | 0, _ => []
  | levels + 1, id =>
      match document.node? id with
      | none => []
      | some node =>
          let inner := node.children.flatMap (writeNode document levels)
          match node.content with
          | .document => inner
          | .element element =>
              if isVoid element.tag then startTag element
              else startTag element ++ inner ++ endTag element
          | .text data => escape false data.toList
          | .comment data => "<!--".toList ++ data.toList ++ "-->".toList

/-- A node with all that hangs below it. -/
def outer (document : Document) (id : NodeId) : String :=
  String.ofList (writeNode document document.size id)

/-- All that hangs below a node. -/
def inner (document : Document) (id : NodeId) : String :=
  String.ofList ((document.children id).flatMap (writeNode document document.size))

end ElementQuery.Markup

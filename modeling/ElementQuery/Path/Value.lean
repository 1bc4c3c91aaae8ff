/-
This file holds the values of expressions and turns them into each other.
-/

import ElementQuery.Document.Traversal
import ElementQuery.Number.Reading
import ElementQuery.Number.Shortest

namespace ElementQuery.Path

/-- Nodes stand in document order without repetitions. Attributes are no nodes, so that only their
values are selected. -/
inductive Value where
  | nodes (ids : List NodeId)
  | boolean (value : Bool)
  | number (value : Binary64)
  | text (value : String)
  | texts (values : List String)
deriving DecidableEq, Repr

/-- The text of a comment is its data, and that of another node its text content. -/
def nodeText (document : Document) (id : NodeId) : String :=
  match document.content? id with
  | some (.comment data) => data
  | some _ => document.textContent id
  | none => ""

namespace Value

/-- What holds something is true. -/
def toBoolean : Value → Bool
  | .nodes ids => !ids.isEmpty
  | .boolean value => value
  | .number value => value.isTrue
  | .text value => value != ""
  | .texts values => !values.isEmpty

/-- Several nodes or texts are represented by the first one. -/
def toText (document : Document) : Value → String
  | .nodes ids => (ids.head?.map (nodeText document)).getD ""
  | .boolean value => if value then "true" else "false"
  | .number value => value.text
  | .text value => value
  | .texts values => values.head?.getD ""

/-- Truth is one and falsehood zero; what is neither that nor a number is read from its text. -/
def toNumber (document : Document) : Value → Binary64
  | .boolean value => if value then .one else .zero
  | .number value => value
  | other => Binary64.ofText (other.toText document)

/-- The texts of all members of a value that has members. -/
def members? (document : Document) : Value → Option (List String)
  | .nodes ids => some (ids.map (nodeText document))
  | .texts values => some values
  | _ => none

/-- The nodes of a value that consists of nodes. -/
def nodes? : Value → Option (List NodeId)
  | .nodes ids => some ids
  | _ => none

def isBoolean : Value → Bool
  | .boolean _ => true
  | _ => false

def isNumber : Value → Bool
  | .number _ => true
  | _ => false

end Value

end ElementQuery.Path

/-
This file tells with which of its siblings an element is counted.
-/

import ElementQuery.Document.Basic

namespace ElementQuery

/-- Siblings are counted among all elements or among those with the same tag name. -/
inductive Kin where
  | any
  | sameTag
deriving DecidableEq, Repr

/-- The name of a position ends by telling with which siblings it is counted. -/
def Kin.ending : Kin → String
  | .any => "-child"
  | .sameTag => "-of-type"

namespace Document

/-- Two elements have the same tag name up to the case of ASCII letters. -/
def sameTag (document : Document) (first second : NodeId) : Bool :=
  match document.tag? first, document.tag? second with
  | some tag, some other => Text.sameLetters tag other
  | _, _ => false

end Document

end ElementQuery

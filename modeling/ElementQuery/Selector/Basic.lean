/-
This file holds the selectors that are read strictly: conditions on an element and on the elements
around it.
-/

import ElementQuery.Document.Siblings
import ElementQuery.Progression

namespace ElementQuery.Selector

/-- Siblings are counted from the first or from the last. -/
inductive Side where
  | front
  | back
deriving DecidableEq, Repr

inductive PseudoClass where
  | documentElement
  | first (kin : Kin)
  | last (kin : Kin)
  | only (kin : Kin)
  | nth (side : Side) (kin : Kin) (progression : Progression)
  | empty
  | link
  | checked
  | disabled
  | enabled
deriving DecidableEq, Repr

/-- The name of a pseudo-class in a selector. -/
def PseudoClass.name : PseudoClass → String
  | .documentElement => "root"
  | .first kin => "first" ++ kin.ending
  | .last kin => "last" ++ kin.ending
  | .only kin => "only" ++ kin.ending
  | .nth .front kin _ => "nth" ++ kin.ending
  | .nth .back kin _ => "nth-last" ++ kin.ending
  | .empty => "empty"
  | .link => "link"
  | .checked => "checked"
  | .disabled => "disabled"
  | .enabled => "enabled"

inductive AttributeTest where
  | exists (name : String)
  | equals (name value : String)
  | hasWord (name value : String)
  | hasLanguage (name value : String)
  | beginsWith (name value : String)
  | endsWith (name value : String)
  | contains (name value : String)
deriving DecidableEq, Repr

/-- A simple selector is one condition on an element. A state that a document at rest cannot show is
never met. -/
inductive Simple where
  | tag (name : String)
  | universal
  | hasClass (name : String)
  | id (name : String)
  | attribute (test : AttributeTest)
  | pseudo (pseudo : PseudoClass)
  | negation (compounds : List (List Simple))
  | never

/-- A compound selector joins conditions on one element. -/
abbrev Compound := List Simple

inductive Combinator where
  | descendant
  | child
  | nextSibling
  | laterSibling
deriving DecidableEq, Repr

def Combinator.name : Combinator → String
  | .descendant => "descendant"
  | .child => "child"
  | .nextSibling => "next-sibling"
  | .laterSibling => "subsequent-sibling"

/-- A complex selector is a condition on its subject and, going away from it, conditions on elements
around it. -/
structure Complex where
  subject : Compound
  chain : List (Combinator × Compound) := []

namespace Complex

/-- A new subject is put behind a combinator, and the old one becomes the first of the chain. -/
def extend (complex : Complex) (combinator : Combinator) (subject : Compound) : Complex :=
  ⟨subject, (combinator, complex.subject) :: complex.chain⟩

end Complex

/-- The text of a selector can be at fault in these ways. -/
inductive Error where
  | empty
  | unexpectedCharacter (found : Char) (offset : Nat)
  | unexpectedEnd
  | danglingCombinator
  | unknownPseudoClass (name : String)
  | invalidProgression (text : String)
deriving DecidableEq, Repr

def Error.message : Error → String
  | .empty => "empty selector"
  | .unexpectedCharacter found offset =>
      "unexpected '" ++ found.toString ++ "' at byte " ++ toString offset
  | .unexpectedEnd => "unexpected end of selector"
  | .danglingCombinator => "combinator without a right-hand selector"
  | .unknownPseudoClass name => "unknown pseudo-class ':" ++ name ++ "'"
  | .invalidProgression text => "invalid An+B argument '" ++ text ++ "'"

end ElementQuery.Selector

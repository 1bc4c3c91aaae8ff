/-
This file holds the selectors that are read leniently: groups of steps that lead from a scope to the
elements they select.
-/

import ElementQuery.Document.Siblings
import ElementQuery.Progression

namespace ElementQuery

namespace Group

inductive Combinator where
  | descendant
  | child
  | adjacent
  | general
deriving DecidableEq, Repr

/-- The combinators that are written with a character of their own. -/
def Combinator.ofChar? : Char → Option Combinator
  | '>' => some .child
  | '+' => some .adjacent
  | '~' => some .general
  | _ => none

/-- A word is a combinator when its one character is. -/
def Combinator.ofWord? : List Char → Option Combinator
  | [c] => Combinator.ofChar? c
  | _ => none

def Combinator.name : Combinator → String
  | .descendant => "descendant"
  | .child => "child"
  | .adjacent => "adjacent"
  | .general => "general"

inductive Operator where
  | exact
  | beginning
  | ending
  | substring
deriving DecidableEq, Repr

/-- A filter without a test asks for a value that is not empty. -/
structure AttributeFilter where
  name : String
  test : Option (Operator × String)
deriving DecidableEq, Repr

/-- A counting argument is one position, every position or a progression. -/
inductive Argument where
  | position (k : Nat)
  | every
  | progression (progression : Progression)
deriving DecidableEq, Repr

def Argument.contains (position : Nat) : Argument → Bool
  | .position k => position == k
  | .every => true
  | .progression held => held.contains position

/-- A compound asks for a tag name, an id, classes and attributes at once. -/
structure Compound where
  tag : String := "*"
  id : Option String := none
  classes : List String := []
  attributes : List AttributeFilter := []
deriving DecidableEq, Repr

inductive PseudoClass where
  | first (kin : Kin)
  | last (kin : Kin)
  | only (kin : Kin)
  | nth (kin : Kin) (argument : Argument)
  | empty
  | contains (text : String)
  | enabled
  | disabled
  | checked
  | negation (compound : Compound)
deriving DecidableEq, Repr

/-- The name of a pseudo-class in a selector. -/
def PseudoClass.name : PseudoClass → String
  | .first kin => "first" ++ kin.ending
  | .last kin => "last" ++ kin.ending
  | .only kin => "only" ++ kin.ending
  | .nth kin _ => "nth" ++ kin.ending
  | .empty => "empty"
  | .contains _ => "contains"
  | .enabled => "enabled"
  | .disabled => "disabled"
  | .checked => "checked"
  | .negation _ => "not"

/-- A step leads from earlier elements over a combinator to those that a compound asks for, and its
pseudo-classes are applied in order. -/
structure Step where
  combinator : Combinator
  compound : Compound := {}
  pseudos : List PseudoClass := []
deriving DecidableEq, Repr

end Group

/-- A group is known by its normalized text. A combinator may be left over at its end. -/
structure Group where
  source : String
  steps : List Group.Step
  trailing : Option Group.Combinator
deriving DecidableEq, Repr

/-- A group that has no step, or a combinator with nothing behind it, selects nothing. -/
def Group.isMalformed (group : Group) : Bool := group.trailing.isSome || group.steps.isEmpty

end ElementQuery

/-
This file writes a group as a path expression that selects the same elements from the scope.
-/

import ElementQuery.Group.Reader

namespace ElementQuery.Group

/-- A text as an expression: expressions have no escapes in literals, so that a text with both
quotes is put together from pieces. -/
def literal (text : String) : String :=
  if !text.toList.contains '\x27' then "'" ++ text ++ "'"
  else if !text.toList.contains '\x22' then "\"" ++ text ++ "\""
  else
    let pieces := (text.toList.splitOnP (· == '\x27')).map fun piece =>
      "'" ++ String.ofList piece ++ "'"
    "concat(" ++ String.intercalate ", \"'\", " pieces ++ ")"

/-- A class is a word of the class attribute. -/
def classTest (name : String) : String :=
  "contains(concat(' ', @class, ' '), " ++ literal (" " ++ name ++ " ") ++ ")"

/-- An attribute that is absent or empty meets no test. -/
def presenceTest (name : String) : String := "@" ++ name ++ " != ''"

/-- Every attribute that is not empty begins with, ends with and contains the empty text. -/
def valueTest (name value : String) : Operator → String
  | .exact => if value = "" then "false()" else "@" ++ name ++ " = " ++ literal value
  | .beginning =>
      if value = "" then presenceTest name
      else "starts-with(@" ++ name ++ ", " ++ literal value ++ ")"
  | .ending =>
      if value = "" then presenceTest name
      else "substring(@" ++ name ++ ", string-length(@" ++ name ++ ") - " ++
        toString value.length ++ " + 1) = " ++ literal value
  | .substring =>
      if value = "" then presenceTest name
      else "contains(@" ++ name ++ ", " ++ literal value ++ ")"

def AttributeFilter.pathTest (filter : AttributeFilter) : String :=
  match filter.test with
  | none => presenceTest filter.name
  | some (operator, value) => valueTest filter.name value operator

def idTest (id : String) : String := "@id = " ++ literal id

/-- Siblings are counted along an axis with a name test. -/
def countTest (axis test : String) : String := "count(" ++ axis ++ "::" ++ test ++ ")"

/-- The test that tells the siblings with which an element is counted. -/
def kinTest (tag : String) : Kin → String
  | .any => "*"
  | .sameTag => tag

def noneBefore (tag : String) (kin : Kin) : String :=
  countTest "preceding-sibling" (kinTest tag kin) ++ " = 0"

def noneAfter (tag : String) (kin : Kin) : String :=
  countTest "following-sibling" (kinTest tag kin) ++ " = 0"

/-- Positions of a progression have the remainder of its offset, and lie beyond the offset on the
side to which the steps lead. -/
def progressionTest (position : String) (progression : Progression) : String :=
  let offset := toString progression.offset
  let step := progression.step
  if step = 0 then position ++ " = " ++ offset
  else if 0 < step then
    "(" ++ position ++ ") mod " ++ toString step ++ " = " ++
      toString (progression.offset % step) ++
      (if step < progression.offset then " and " ++ position ++ " >= " ++ offset else "")
  else
    position ++ " <= " ++ offset ++ " and (" ++ offset ++ " - (" ++ position ++ ")) mod " ++
      toString step.natAbs ++ " = 0"

/-- Every position needs no test. -/
def positionTest? (position : String) : Argument → Option String
  | .every => none
  | .position k => some (position ++ " = " ++ toString k)
  | .progression held => some (progressionTest position held)

/-- What is negated is a conjunction, and the empty one is true of every node. -/
def Compound.pathTest (compound : Compound) : String :=
  let tests :=
    (if compound.tag = "*" then [] else ["self::" ++ compound.tag]) ++
      (compound.id.map idTest).toList ++ compound.classes.map classTest ++
      compound.attributes.map AttributeFilter.pathTest
  if tests.isEmpty then "self::node()" else String.intercalate " and " tests

def PseudoClass.pathTest? (tag : String) : PseudoClass → Option String
  | .first kin => some (noneBefore tag kin)
  | .last kin => some (noneAfter tag kin)
  | .only kin => some (noneBefore tag kin ++ " and " ++ noneAfter tag kin)
  | .nth kin argument =>
      positionTest? (countTest "preceding-sibling" (kinTest tag kin) ++ " + 1") argument
  | .empty => some (countTest "child" "node()" ++ " = 0")
  | .contains text => some ("contains(., " ++ literal text ++ ")")
  | .enabled => some "not(@disabled)"
  | .disabled => some "@disabled"
  | .checked => some "@checked"
  | .negation compound => some ("not(" ++ compound.pathTest ++ ")")

/-- A combinator is an axis; the adjacent element is the first one after. -/
def Combinator.pathStep (tag : String) : Combinator → String
  | .descendant => "/descendant::" ++ tag
  | .child => "/child::" ++ tag
  | .adjacent => "/following-sibling::*[1]/self::" ++ tag
  | .general => "/following-sibling::" ++ tag

/-- Every demand of a step becomes a predicate. -/
def Step.pathText (step : Step) : String :=
  let compound := step.compound
  let tests :=
    (compound.id.map idTest).toList ++ compound.classes.map classTest ++
      compound.attributes.map AttributeFilter.pathTest ++
      step.pseudos.filterMap (PseudoClass.pathTest? compound.tag)
  step.combinator.pathStep compound.tag ++ String.join (tests.map fun test => "[" ++ test ++ "]")

/-- A group that selects nothing has no expression; another one begins at the scope. -/
def pathText? (group : Group) : Option String :=
  if group.isMalformed then none
  else some ("." ++ String.join (group.steps.map Step.pathText))

end ElementQuery.Group

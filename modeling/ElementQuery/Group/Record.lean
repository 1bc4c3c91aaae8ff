/-
This file describes groups as JSON values.
-/

import ElementQuery.Group.PathText
import ElementQuery.JsonValue

namespace ElementQuery.Group

def Operator.name : Operator → String
  | .exact => "exact"
  | .beginning => "prefix"
  | .ending => "suffix"
  | .substring => "substring"

def AttributeFilter.record (filter : AttributeFilter) : JsonValue :=
  .object [("name", .text filter.name),
    ("operator", .orNull (fun test => .text test.1.name) filter.test),
    ("value", .orNull (fun test => .text test.2) filter.test)]

def Argument.record : Argument → JsonValue
  | .every => .text "any"
  | .position k => .object [("position", .integer k)]
  | .progression held => .object [("formula",
      .object [("step", .integer held.step), ("offset", .integer held.offset)])]

def Compound.fields (compound : Compound) : List (String × JsonValue) :=
  [("tag", .text compound.tag), ("id", .orNull .text compound.id),
    ("classes", .ofTexts compound.classes),
    ("attributes", .list (compound.attributes.map AttributeFilter.record))]

/-- The argument of a pseudo-class, if it has one. -/
def PseudoClass.argument? : PseudoClass → Option JsonValue
  | .nth _ argument => some argument.record
  | .contains text => some (.text text)
  | .negation compound => some (.object compound.fields)
  | _ => none

def PseudoClass.record (pseudo : PseudoClass) : JsonValue :=
  .object (("kind", .text pseudo.name) ::
    pseudo.argument?.toList.map fun argument => ("argument", argument))

def Step.record (step : Step) : JsonValue :=
  .object (step.compound.fields ++
    [("pseudos", .list (step.pseudos.map PseudoClass.record)),
      ("combinator", .text step.combinator.name)])

def record (group : Group) : JsonValue :=
  .object [("source", .text group.source), ("steps", .list (group.steps.map Step.record)),
    ("trailing_combinator", .orNull (fun combinator => .text combinator.name) group.trailing)]

/-- A group is explained by its parts and its path expression. -/
def explanation (group : Group) : JsonValue :=
  .object [("group", group.record), ("xpath", .orNull .text group.pathText?)]

end ElementQuery.Group

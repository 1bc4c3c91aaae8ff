/-
This file holds path expressions and the ways in which they can be at fault.
-/

import ElementQuery.Document.Basic
import ElementQuery.Path.Token

namespace ElementQuery.Path

/-- An axis leads from a node to others in one direction. -/
inductive Axis where
  | child
  | descendant
  | descendantOrSelf
  | parent
  | ancestor
  | ancestorOrSelf
  | followingSibling
  | precedingSibling
  | following
  | preceding
  | itself
  | attribute
deriving DecidableEq, Repr

namespace Axis

def name : Axis → String
  | .child => "child"
  | .descendant => "descendant"
  | .descendantOrSelf => "descendant-or-self"
  | .parent => "parent"
  | .ancestor => "ancestor"
  | .ancestorOrSelf => "ancestor-or-self"
  | .followingSibling => "following-sibling"
  | .precedingSibling => "preceding-sibling"
  | .following => "following"
  | .preceding => "preceding"
  | .itself => "self"
  | .attribute => "attribute"

def all : List Axis :=
  [.child, .descendant, .descendantOrSelf, .parent, .ancestor, .ancestorOrSelf,
    .followingSibling, .precedingSibling, .following, .preceding, .itself, .attribute]

def ofName? (name : String) : Option Axis := all.find? fun axis => axis.name == name

/-- A reverse axis leads to nodes before its start, the nearest first. -/
def isReverse : Axis → Bool
  | .parent | .ancestor | .ancestorOrSelf | .precedingSibling | .preceding => true
  | _ => false

/-- Every axis is found by its own name. -/
theorem ofName?_name (axis : Axis) : ofName? axis.name = some axis := by
  cases axis <;> decide

end Axis

inductive NodeTest where
  | any
  | name (text : String)
  | node
  | text
  | comment
deriving DecidableEq, Repr

/-- A step follows an axis to nodes of a kind and keeps those that meet all predicates. -/
structure Step (E : Type) where
  axis : Axis
  test : NodeTest
  predicates : List E := []
deriving Repr

inductive Operator where
  | or
  | and
  | equal
  | notEqual
  | less
  | atMost
  | greater
  | atLeast
  | add
  | subtract
  | multiply
  | divide
  | modulo
deriving DecidableEq, Repr

def Operator.symbol : Operator → String
  | .or => "or"
  | .and => "and"
  | .equal => "="
  | .notEqual => "!="
  | .less => "<"
  | .atMost => "<="
  | .greater => ">"
  | .atLeast => ">="
  | .add => "+"
  | .subtract => "-"
  | .multiply => "*"
  | .divide => "div"
  | .modulo => "mod"

inductive Expression where
  | root
  | context
  | parent
  | union (left right : Expression)
  | path (base : Expression) (step : Step Expression)
  | filter (base predicate : Expression)
  | call (name : String) (arguments : List Expression)
  | binary (operator : Operator) (left right : Expression)
  | negate (operand : Expression)
  | number (value : Binary64)
  | literal (text : String)
  | step (step : Step Expression)
deriving Repr

/-- An expression can be at fault when it is read and when it is evaluated. -/
inductive Error where
  | unexpected (found : Token) (offset : Nat)
  | expected (wanted found : Token) (offset : Nat)
  | unknownAxis (name : String)
  | unknownFunction (name : String)
  | arity (function accepted : String) (found : Nat)
  | notNodes (operation : String)
  | unsupported (feature : String)
  | invalidContext (id : NodeId)
deriving DecidableEq, Repr

/-- A fault of syntax is reported with the place behind the token that was found. -/
def Error.syntaxMessage (offset : Nat) (cause : String) : String :=
  "XPath syntax error at byte " ++ toString offset ++ ": " ++ cause

def Error.message : Error → String
  | .unexpected found offset => syntaxMessage offset ("unexpected " ++ found.shown)
  | .expected wanted found offset =>
      syntaxMessage offset ("expected " ++ wanted.shown ++ ", found " ++ found.shown)
  | .unknownAxis name => "unknown axis '" ++ name ++ "'"
  | .unknownFunction name => "unknown function '" ++ name ++ "()'"
  | .arity function accepted found =>
      function ++ "() expects " ++ accepted ++ " argument(s), got " ++ toString found
  | .notNodes operation => "'" ++ operation ++ "' requires a node-set operand"
  | .unsupported feature => "unsupported: " ++ feature
  | .invalidContext id => "context node NodeId(" ++ toString id ++ ") is not in the tree"

end ElementQuery.Path

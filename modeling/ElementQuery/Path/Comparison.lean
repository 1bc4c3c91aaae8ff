/-
This file compares the values of expressions.
-/

import ElementQuery.Path.Expression
import ElementQuery.Path.Value

namespace ElementQuery.Path

/-- Two values without members are equal as truth values when one of them is one, else as numbers
when one of them is one, and else as texts. -/
def scalarsEqual (document : Document) (left right : Value) : Bool :=
  if left.isBoolean || right.isBoolean then left.toBoolean == right.toBoolean
  else if left.isNumber || right.isNumber then
    (left.toNumber document).same (right.toNumber document)
  else left.toText document == right.toText document

/-- Two values without members are put in order as numbers. -/
def compareScalars (document : Document) (operator : Operator) (left right : Value) : Bool :=
  let first := left.toNumber document
  let second := right.toNumber document
  match operator with
  | .equal => scalarsEqual document left right
  | .notEqual => !scalarsEqual document left right
  | .less => first.less second
  | .atMost => first.atMost second
  | .greater => second.less first
  | _ => second.atMost first

/-- A value with members compares as one of its members does, and next to a truth value as a truth
value. -/
def compareValues (document : Document) (operator : Operator) (left right : Value) : Bool :=
  let compare := compareScalars document operator
  match left.members? document, right.members? document with
  | some firsts, some seconds =>
      firsts.any fun first => seconds.any fun second => compare (.text first) (.text second)
  | some firsts, none =>
      if right.isBoolean then compare (.boolean left.toBoolean) right
      else firsts.any fun first => compare (.text first) right
  | none, some seconds =>
      if left.isBoolean then compare left (.boolean right.toBoolean)
      else seconds.any fun second => compare left (.text second)
  | none, none => compare left right

/-- An arithmetic operator computes with numbers; any other one takes the remainder. -/
def computeNumbers (operator : Operator) (left right : Binary64) : Binary64 :=
  match operator with
  | .add => left.add right
  | .subtract => left.sub right
  | .multiply => left.mul right
  | .divide => left.div right
  | _ => left.rem right

/-- A binary operator is arithmetic or a comparison when both operands are evaluated. -/
def Operator.isArithmetic : Operator → Bool
  | .add | .subtract | .multiply | .divide | .modulo => true
  | _ => false

def applyOperator (document : Document) (operator : Operator) (left right : Value) : Value :=
  if operator.isArithmetic then
    .number (computeNumbers operator (left.toNumber document) (right.toNumber document))
  else .boolean (compareValues document operator left right)

end ElementQuery.Path

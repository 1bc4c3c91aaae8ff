/-
This file evaluates expressions at the nodes of a document.
-/

import ElementQuery.Path.Comparison
import ElementQuery.Path.Function
import ElementQuery.Path.Navigation
import ElementQuery.Path.Parser

namespace ElementQuery.Path

/-- An operation that works on nodes refuses other values. -/
def expectNodes (operation : String) (value : Value) : Except Error (List NodeId) :=
  match value.nodes? with
  | some ids => .ok ids
  | none => .error (.notNodes operation)

/-- A number as a predicate asks for a position, and any other value for its truth. -/
def isKept (position : Nat) : Value → Bool
  | .number value => (Binary64.ofNat position).same value
  | value => value.toBoolean

/-- The nodes are kept that pass a test at their positions, which are counted from a first one. -/
def keepFrom (test : Nat → NodeId → Except Error Bool) :
    Nat → List NodeId → Except Error (List NodeId)
  | _, [] => .ok []
  | position, id :: rest => do
      let kept ← test position id
      let others ← keepFrom test (position + 1) rest
      return if kept then id :: others else others

/-- Several lists are made one after the other and joined. -/
def gather (select : NodeId → Except Error (List NodeId)) :
    List NodeId → Except Error (List NodeId)
  | [] => .ok []
  | id :: rest => do
      let first ← select id
      let others ← gather select rest
      return first ++ others

mutual

/-- The value of an expression in a context. -/
def evaluate (context : Context) : Expression → Except Error Value
  | .root => .ok (.nodes [context.document.top context.node])
  | .context => .ok (.nodes [context.node])
  | .parent => .ok (.nodes (context.document.parent? context.node).toList)
  | .union left right => do
      let first ← expectNodes "|" (← evaluate context left)
      let second ← expectNodes "|" (← evaluate context right)
      return .nodes (Document.sortBy context.order (first ++ second))
  | .path base step => do
      let nodes ← expectNodes "/" (← evaluate context base)
      followStep context nodes step
  | .filter base predicate => do
      let nodes ← expectNodes "[]" (← evaluate context base)
      let kept ← keepFrom (fun position id => do
        let value ← evaluate (context.moved id position nodes.length) predicate
        return isKept position value) 1 nodes
      return .nodes kept
  | .call name arguments =>
      match Function.ofName? name with
      | none => .error (.unknownFunction name)
      | some function =>
          if function.arity.accepts arguments.length then do
            let values ← evaluateAll context arguments
            function.apply context values
          else .error (.arity name function.arity.shown arguments.length)
  | .binary operator left right => do
      let first ← evaluate context left
      if operator = .or && first.toBoolean then return .boolean true
      else if operator = .and && !first.toBoolean then return .boolean false
      else
        let second ← evaluate context right
        if operator = .or || operator = .and then return .boolean second.toBoolean
        else return applyOperator context.document operator first second
  | .negate operand => do
      let value ← evaluate context operand
      return .number (value.toNumber context.document).neg
  | .number value => .ok (.number value)
  | .literal text => .ok (.text text)
  | .step step => followStep context [context.node] step

/-- The values of several expressions in one context, in order. -/
def evaluateAll (context : Context) : List Expression → Except Error (List Value)
  | [] => .ok []
  | expression :: rest => do
      let value ← evaluate context expression
      let values ← evaluateAll context rest
      return value :: values

/-- Every predicate sees the nodes that the ones before it have kept. -/
def filterAll (context : Context) : List Expression → List NodeId → Except Error (List NodeId)
  | [], nodes => .ok nodes
  | predicate :: rest, nodes => do
      let kept ← keepFrom (fun position id => do
        let value ← evaluate (context.moved id position nodes.length) predicate
        return isKept position value) 1 nodes
      filterAll context rest kept

/-- A step is followed from every node, and what is found is put into document order; the attribute
axis leads to values and takes no predicates. -/
def followStep (context : Context) (nodes : List NodeId) :
    Step Expression → Except Error Value
  | ⟨axis, test, predicates⟩ =>
      if axis = .attribute then
        if predicates.isEmpty then .ok (.texts (attributeValues context.document test nodes))
        else .error (.unsupported "predicates on the attribute axis")
      else do
        let found ← gather (fun id =>
          filterAll context predicates (candidates context.document axis test id)) nodes
        return .nodes (Document.sortBy context.order found)

end

/-- An expression is evaluated at a node of the document. -/
def evaluateAt (document : Document) (node : NodeId) (expression : Expression) :
    Except Error Value :=
  if (document.node? node).isSome then evaluate (.start document node) expression
  else .error (.invalidContext node)

/-- The nodes that the text of an expression selects; a value of another kind selects none. -/
def select (document : Document) (text : String) (node : NodeId) :
    Except Error (List NodeId) := do
  let expression ← parse text
  let value ← evaluateAt document node expression
  return value.nodes?.getD []

end ElementQuery.Path

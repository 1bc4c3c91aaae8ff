/-
This file reads path expressions from their tokens, one function for each level of precedence.
-/

import ElementQuery.Path.Expression
import ElementQuery.Path.Lexer

namespace ElementQuery.Path

/-- While an expression is read, a fault is noted by the lexemes that are left at its place. -/
inductive Fault where
  | unexpected (rest : List Lexeme)
  | expected (wanted : Token) (rest : List Lexeme)
  | unknownAxis (name : String)
deriving DecidableEq, Repr

/-- The token that stands first, or the end. -/
def current : List Lexeme → Token
  | [] => .finish
  | lexeme :: _ => lexeme.token

/-- The number of bytes up to the end of the current token. -/
def offset (whole : List Char) : List Lexeme → Nat
  | [] => Text.byteLength whole
  | lexeme :: _ => Text.byteLength whole - Text.byteLength lexeme.left

def Fault.toError (whole : List Char) : Fault → Error
  | .unexpected rest => .unexpected (current rest) (offset whole rest)
  | .expected wanted rest => .expected wanted (current rest) (offset whole rest)
  | .unknownAxis name => .unknownAxis name

/-- A given token is required. -/
def expect (wanted : Token) (text : List Lexeme) : Except Fault (List Lexeme) :=
  if current text = wanted then .ok (text.drop 1) else .error (.expected wanted text)

/-- Operators are applied from left to right while one follows; every one of them takes a token, so
that as many moves as there are tokens suffice. -/
def chainFrom {A B : Type} (operator? : Token → Option (A → B → A))
    (operand : List Lexeme → Except Fault (B × List Lexeme)) :
    Nat → A → List Lexeme → Except Fault (A × List Lexeme)
  | 0, left, text => .ok (left, text)
  | moves + 1, left, text =>
      match operator? (current text) with
      | some apply => do
          let (right, rest) ← operand (text.drop 1)
          chainFrom operator? operand moves (apply left right) rest
      | none => .ok (left, text)

/-- One level of left-associative operators above the level of their operands. -/
def leftChain (operator? : Token → Option (Expression → Expression → Expression))
    (operand : List Lexeme → Except Fault (Expression × List Lexeme)) (text : List Lexeme) :
    Except Fault (Expression × List Lexeme) := do
  let (first, rest) ← operand text
  chainFrom operator? operand rest.length first rest

def orOperator? : Token → Option (Expression → Expression → Expression)
  | .or => some (.binary .or)
  | _ => none

def andOperator? : Token → Option (Expression → Expression → Expression)
  | .and => some (.binary .and)
  | _ => none

def equalityOperator? : Token → Option (Expression → Expression → Expression)
  | .equal => some (.binary .equal)
  | .notEqual => some (.binary .notEqual)
  | _ => none

def relationalOperator? : Token → Option (Expression → Expression → Expression)
  | .less => some (.binary .less)
  | .atMost => some (.binary .atMost)
  | .greater => some (.binary .greater)
  | .atLeast => some (.binary .atLeast)
  | _ => none

def additiveOperator? : Token → Option (Expression → Expression → Expression)
  | .plus => some (.binary .add)
  | .minus => some (.binary .subtract)
  | _ => none

def multiplicativeOperator? : Token → Option (Expression → Expression → Expression)
  | .multiply => some (.binary .multiply)
  | .div => some (.binary .divide)
  | .mod => some (.binary .modulo)
  | _ => none

def unionOperator? : Token → Option (Expression → Expression → Expression)
  | .pipe => some .union
  | _ => none

/-- Two slashes are short for a step to the node and everything below it. -/
def below (base : Expression) : Expression := .path base ⟨.descendantOrSelf, .node, []⟩

def pathOperator? : Token → Option (Expression → Step Expression → Expression)
  | .slash => some .path
  | .doubleSlash => some fun base step => .path (below base) step
  | _ => none

/-- A step may begin with these tokens. -/
def startsStep : Token → Bool
  | .name _ | .star | .at | .axis _ | .nodeType _ | .dot | .doubleDot => true
  | _ => false

section

variable (nested : List Lexeme → Except Fault (Expression × List Lexeme))

/-- Predicates stand in brackets one after the other. -/
def readPredicates : Nat → List Lexeme → Except Fault (List Expression × List Lexeme)
  | 0, text => .ok ([], text)
  | moves + 1, text =>
      if current text = .leftBracket then do
        let (predicate, rest) ← nested (text.drop 1)
        let rest ← expect .rightBracket rest
        let (others, rest) ← readPredicates moves rest
        return (predicate :: others, rest)
      else .ok ([], text)

/-- An axis is written as a name with two colons or as an at sign, and is otherwise that of the
children. -/
def readAxis (text : List Lexeme) : Except Fault (Axis × List Lexeme) :=
  match current text with
  | .at => .ok (.attribute, text.drop 1)
  | .axis name =>
      match Axis.ofName? name with
      | some axis => do
          let rest ← expect .doubleColon (text.drop 1)
          return (axis, rest)
      | none => .error (.unknownAxis name)
  | _ => .ok (.child, text)

/-- Every name of a kind of node but two stands for all nodes. -/
def nodeTypeTest (kind : String) : NodeTest :=
  if kind = "text" then .text else if kind = "comment" then .comment else .node

/-- A node test is a star, a name, or the name of a kind of node with empty parentheses. -/
def readTest (text : List Lexeme) : Except Fault (NodeTest × List Lexeme) :=
  match current text with
  | .star => .ok (.any, text.drop 1)
  | .name name => .ok (.name name, text.drop 1)
  | .nodeType kind => do
      let rest ← expect .leftParen (text.drop 1)
      if current rest = .rightParen then return (nodeTypeTest kind, rest.drop 1)
      else .error (.unexpected rest)
  | _ => .error (.unexpected text)

/-- One dot leads to the node itself and two to its parent; other steps are an axis, a test and
predicates. -/
def readStep (text : List Lexeme) : Except Fault (Step Expression × List Lexeme) :=
  match current text with
  | .dot => .ok (⟨.itself, .node, []⟩, text.drop 1)
  | .doubleDot => .ok (⟨.parent, .node, []⟩, text.drop 1)
  | _ => do
      let (axis, rest) ← readAxis text
      let (test, rest) ← readTest rest
      let (predicates, rest) ← readPredicates nested rest.length rest
      return (⟨axis, test, predicates⟩, rest)

def readStepExpression (text : List Lexeme) : Except Fault (Expression × List Lexeme) := do
  let (step, rest) ← readStep nested text
  return (.step step, rest)

/-- Further arguments stand behind commas. -/
def readMoreArguments : Nat → List Lexeme → Except Fault (List Expression × List Lexeme)
  | 0, text => .ok ([], text)
  | moves + 1, text =>
      if current text = .comma then do
        let (argument, rest) ← nested (text.drop 1)
        let (others, rest) ← readMoreArguments moves rest
        return (argument :: others, rest)
      else .ok ([], text)

def readArguments (text : List Lexeme) : Except Fault (List Expression × List Lexeme) :=
  if current text = .rightParen then .ok ([], text.drop 1)
  else do
    let (first, rest) ← nested text
    let (others, rest) ← readMoreArguments nested rest.length rest
    let rest ← expect .rightParen rest
    return (first :: others, rest)

/-- A name with a parenthesis behind it is a call, and without one it begins a step. -/
def readPrimary (text : List Lexeme) : Except Fault (Expression × List Lexeme) :=
  match current text with
  | .number value => .ok (.number value, text.drop 1)
  | .literal value => .ok (.literal value, text.drop 1)
  | .leftParen => do
      let (inner, rest) ← nested (text.drop 1)
      let rest ← expect .rightParen rest
      return (inner, rest)
  | .name name =>
      if current (text.drop 1) = .leftParen then do
        let (arguments, rest) ← readArguments nested (text.drop 2)
        return (.call name arguments, rest)
      else readStepExpression nested text
  | .dot => .ok (.context, text.drop 1)
  | .doubleDot => .ok (.parent, text.drop 1)
  | .star | .at | .axis _ | .nodeType _ => readStepExpression nested text
  | _ => .error (.unexpected text)

/-- Predicates behind a primary expression filter it one after the other. -/
def readFilter (text : List Lexeme) : Except Fault (Expression × List Lexeme) := do
  let (primary, rest) ← readPrimary nested text
  let (predicates, rest) ← readPredicates nested rest.length rest
  return (predicates.foldl Expression.filter primary, rest)

/-- Steps follow behind slashes. -/
def continuePath (base : Expression) (text : List Lexeme) :
    Except Fault (Expression × List Lexeme) :=
  chainFrom pathOperator? (readStep nested) text.length base text

/-- A path may begin with a slash, which stands for the root, alone if no step follows. -/
def readPath (text : List Lexeme) : Except Fault (Expression × List Lexeme) :=
  match current text with
  | .slash =>
      if startsStep (current (text.drop 1)) then do
        let (step, rest) ← readStep nested (text.drop 1)
        continuePath nested (.path .root step) rest
      else .ok (.root, text.drop 1)
  | .doubleSlash => do
      let (step, rest) ← readStep nested (text.drop 1)
      continuePath nested (.path (below .root) step) rest
  | _ => do
      let (base, rest) ← readFilter nested text
      continuePath nested base rest

/-- Every minus sign before a union negates it once. -/
def readUnary : Nat → List Lexeme → Except Fault (Expression × List Lexeme)
  | 0, text => leftChain unionOperator? (readPath nested) text
  | moves + 1, text =>
      if current text = .minus then do
        let (operand, rest) ← readUnary moves (text.drop 1)
        return (.negate operand, rest)
      else leftChain unionOperator? (readPath nested) text

def readMultiplicative (text : List Lexeme) : Except Fault (Expression × List Lexeme) :=
  leftChain multiplicativeOperator? (fun text => readUnary nested text.length text) text

def readAdditive (text : List Lexeme) : Except Fault (Expression × List Lexeme) :=
  leftChain additiveOperator? (readMultiplicative nested) text

def readRelational (text : List Lexeme) : Except Fault (Expression × List Lexeme) :=
  leftChain relationalOperator? (readAdditive nested) text

def readEquality (text : List Lexeme) : Except Fault (Expression × List Lexeme) :=
  leftChain equalityOperator? (readRelational nested) text

def readAnd (text : List Lexeme) : Except Fault (Expression × List Lexeme) :=
  leftChain andOperator? (readEquality nested) text

def readOr (text : List Lexeme) : Except Fault (Expression × List Lexeme) :=
  leftChain orOperator? (readAnd nested) text

end

/-- The levels bound how deep expressions stand inside each other. -/
def readExpression : Nat → List Lexeme → Except Fault (Expression × List Lexeme)
  | 0, text => .error (.unexpected text)
  | levels + 1, text => readOr (readExpression levels) text

/-- An expression has to end where its text ends; a nested one stands behind a bracket, so that
there are fewer levels than tokens. -/
def readWhole (text : List Lexeme) : Except Fault Expression := do
  let (expression, rest) ← readExpression (text.length + 1) text
  if rest.isEmpty then return expression else .error (.unexpected rest)

def parse (text : String) : Except Error Expression :=
  (readWhole (lexemes text)).mapError (Fault.toError text.toList)

end ElementQuery.Path

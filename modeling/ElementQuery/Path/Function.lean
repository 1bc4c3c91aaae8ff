/-
This file holds the functions of path expressions.
-/

import ElementQuery.Document.Order
import ElementQuery.Path.Expression
import ElementQuery.Path.Value
import ElementQuery.Text.Search

namespace ElementQuery.Path

/-- A function accepts a least and perhaps a greatest number of arguments. -/
structure Arity where
  least : Nat
  greatest : Option Nat
deriving DecidableEq, Repr

namespace Arity

def exactly (count : Nat) : Arity := ⟨count, some count⟩

def accepts (arity : Arity) (count : Nat) : Bool :=
  arity.least ≤ count && arity.greatest.all fun greatest => count ≤ greatest

/-- The accepted numbers in words. -/
def shown (arity : Arity) : String :=
  match arity.greatest with
  | none => "at least " ++ toString arity.least
  | some greatest =>
      if greatest = arity.least then toString greatest
      else toString arity.least ++ " or " ++ toString greatest

end Arity

inductive Function where
  | last
  | position
  | count
  | name
  | string
  | concat
  | startsWith
  | contains
  | substringBefore
  | substringAfter
  | substring
  | stringLength
  | normalizeSpace
  | translate
  | boolean
  | not
  | truth
  | falsehood
  | number
  | sum
  | floor
  | ceiling
  | round
deriving DecidableEq, Repr

namespace Function

/-- The functions by their names; one of them has two. -/
def named : List (String × Function) :=
  [("last", .last), ("position", .position), ("count", .count), ("name", .name),
    ("local-name", .name), ("string", .string), ("concat", .concat),
    ("starts-with", .startsWith), ("contains", .contains),
    ("substring-before", .substringBefore), ("substring-after", .substringAfter),
    ("substring", .substring), ("string-length", .stringLength),
    ("normalize-space", .normalizeSpace), ("translate", .translate), ("boolean", .boolean),
    ("not", .not), ("true", .truth), ("false", .falsehood), ("number", .number), ("sum", .sum),
    ("floor", .floor), ("ceiling", .ceiling), ("round", .round)]

def ofName? (name : String) : Option Function :=
  (named.find? fun entry => entry.1 == name).map Prod.snd

def arity : Function → Arity
  | .last | .position | .truth | .falsehood => .exactly 0
  | .count | .boolean | .not | .sum | .floor | .ceiling | .round => .exactly 1
  | .name | .string | .stringLength | .normalizeSpace | .number => ⟨0, some 1⟩
  | .startsWith | .contains | .substringBefore | .substringAfter => .exactly 2
  | .substring => ⟨2, some 3⟩
  | .translate => .exactly 3
  | .concat => ⟨2, none⟩

end Function

/-- An expression is evaluated at a node that has a position among several. -/
structure Context where
  document : Document
  order : List NodeId
  node : NodeId
  position : Nat := 1
  size : Nat := 1

namespace Context

/-- A new context stands alone in the tree of its node. -/
def start (document : Document) (node : NodeId) : Context :=
  { document, order := document.treeOrder node, node }

/-- The same tree at another place. -/
def moved (context : Context) (node : NodeId) (position size : Nat) : Context :=
  { context with node, position, size }

end Context

/-- Characters are counted from one; those are kept that stand from the rounded start on and before
the rounded start plus the rounded length. -/
def substring (text : List Char) (start length : Binary64) : List Char :=
  let first := start.round
  let finish := first.add length.round
  (text.zipIdx 1).filterMap fun (c, place) =>
    let position := Binary64.ofNat place
    if first.atMost position && position.less finish then some c else none

/-- A character that is listed is exchanged for the one at its place in the other list, or lost when
there is none. -/
def translate (source target text : List Char) : List Char :=
  text.filterMap fun c =>
    match source.idxOf? c with
    | some index => target[index]?
    | none => some c

/-- Words are separated by single blanks. -/
def normalizeBlanks (text : List Char) : List Char :=
  [' '].intercalate (Text.words Text.isBlank text)

/-- A sum is taken in order and is negative zero when there is nothing to add. -/
def sumTexts (texts : List String) : Binary64 :=
  texts.foldl (fun total text => total.add (Binary64.ofText text)) .negativeZero

/-- The number of members of a value that has members. -/
def countMembers? : Value → Option Nat
  | .nodes ids => some ids.length
  | .texts values => some values.length
  | _ => none

namespace Function

/-- A function is applied to arguments whose number it accepts. Where an argument may be missing,
the context takes its place. -/
def apply (context : Context) (function : Function) (arguments : List Value) :
    Except Error Value :=
  let document := context.document
  let argument (index : Nat) : Value := arguments[index]?.getD (.nodes [context.node])
  let text (index : Nat) : String := (argument index).toText document
  let letters (index : Nat) : List Char := (text index).toList
  let number (index : Nat) : Binary64 := (argument index).toNumber document
  let given (value : Value) : Except Error Value := .ok value
  let writing (result : List Char) : Except Error Value := .ok (.text (String.ofList result))
  match function with
  | .last => given (.number (.ofNat context.size))
  | .position => given (.number (.ofNat context.position))
  | .count =>
      match countMembers? (argument 0) with
      | some total => given (.number (.ofNat total))
      | none => .error (.notNodes "count()")
  | .name =>
      match (argument 0).nodes? with
      | some ids => given (.text ((ids.head?.bind document.tag?).getD ""))
      | none => .error (.notNodes "name()")
  | .string => given (.text (text 0))
  | .concat => given (.text (String.join (arguments.map (Value.toText document))))
  | .startsWith => given (.boolean ((letters 1).isPrefixOf (letters 0)))
  | .contains => given (.boolean (Text.occurs (letters 1) (letters 0)))
  | .substringBefore =>
      writing (((Text.cutAt? (letters 1) (letters 0)).map Prod.fst).getD [])
  | .substringAfter =>
      writing (((Text.cutAt? (letters 1) (letters 0)).map Prod.snd).getD [])
  | .substring =>
      let length := if arguments.length = 3 then number 2 else .infinite false
      writing (Path.substring (letters 0) (number 1) length)
  | .stringLength => given (.number (.ofNat (letters 0).length))
  | .normalizeSpace => writing (normalizeBlanks (letters 0))
  | .translate => writing (Path.translate (letters 1) (letters 2) (letters 0))
  | .boolean => given (.boolean (argument 0).toBoolean)
  | .not => given (.boolean !(argument 0).toBoolean)
  | .truth => given (.boolean true)
  | .falsehood => given (.boolean false)
  | .number => given (.number (number 0))
  | .sum =>
      match (argument 0).members? document with
      | some texts => given (.number (sumTexts texts))
      | none => .error (.notNodes "sum()")
  | .floor => given (.number (number 0).floor)
  | .ceiling => given (.number (number 0).ceiling)
  | .round => given (.number (number 0).round)

end Function

end ElementQuery.Path

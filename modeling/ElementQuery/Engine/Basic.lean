/-
This file holds the engine that finds elements on one backend.
-/

import ElementQuery.Engine.Host
import ElementQuery.Group.PathText
import ElementQuery.Group.Cache

namespace ElementQuery

/-- A query yields a value, warnings in order, and the texts that the host was handed. -/
structure Served (A : Type) where
  value : A
  warnings : List Warning := []
  requests : List String := []
deriving Repr

namespace Served

instance : Monad Served where
  pure value := { value }
  bind first next :=
    let second := next first.value
    ⟨second.value, first.warnings ++ second.warnings, first.requests ++ second.requests⟩

/-- A computation that warns hands nothing to the host. -/
def ofWarned {A : Type} (warned : Warned A) : Served A :=
  { value := warned.value, warnings := warned.warnings }

/-- The host was handed a text. -/
def requested (text : String) : Served Unit := { value := (), requests := [text] }

@[simp] theorem pure_value {A : Type} (value : A) : (pure value : Served A).value = value := rfl

@[simp] theorem bind_value {A B : Type} (first : Served A) (next : A → Served B) :
    (first >>= next).value = (next first.value).value := rfl

@[simp] theorem ofWarned_value {A : Type} (warned : Warned A) :
    (ofWarned warned).value = warned.value := rfl

end Served

/-- A query fails before any search when its scope or its backend is not there. -/
inductive QueryError where
  | invalidScope (id : NodeId)
  | backendUnavailable (backend : Backend)
deriving DecidableEq, Repr

def QueryError.message : QueryError → String
  | .invalidScope id => "node NodeId(" ++ toString id ++ ") is not a document or element"
  | .backendUnavailable backend => "host has no " ++ backend.name ++ " backend"

/-- An engine works with a matcher, with an evaluator or on its own. -/
inductive Engine where
  | native (matcher : NativeMatcher)
  | path (evaluator : PathEvaluator)
  | walker

namespace Engine

def backend : Engine → Backend
  | .native _ => .native
  | .path _ => .path
  | .walker => .walker

/-- The engine on the backend that a host prefers. -/
def ofHost (host : Host) : Engine :=
  match host.native, host.path with
  | some matcher, _ => .native matcher
  | none, some evaluator => .path evaluator
  | none, none => .walker

/-- The engine on a given backend, which the host has to offer. -/
def onBackend (backend : Backend) (host : Host) : Except QueryError Engine :=
  match backend with
  | .native => (host.native.map native).elim (.error (.backendUnavailable backend)) .ok
  | .path => (host.path.map path).elim (.error (.backendUnavailable backend)) .ok
  | .walker => .ok .walker

/-- What the host refuses becomes a warning and a default. -/
def orWarn {A E : Type} (component text : String) (message : E → String) (default : A) :
    Except E A → Served A
  | .ok value => pure value
  | .error error => .ofWarned (do
      Warned.warn component (text ++ message error)
      return default)

/-- The host is handed a selector text. -/
def askNative {A : Type} (query : String) (default : A) (answer : Except Selector.Error A) :
    Served A := do
  Served.requested query
  orWarn "Native" ("'" ++ query ++ "' rejected: ") Selector.Error.message default answer

/-- The host is handed the expression of a group, if the group has one. -/
def askPath (evaluator : PathEvaluator) (document : Document) (scope : NodeId) (group : Group) :
    Served (List NodeId) :=
  match group.pathText? with
  | none => pure []
  | some expression => do
      Served.requested expression
      orWarn "XPath" ("'" ++ expression ++ "' failed: ") Path.Error.message []
        (evaluator.select document expression scope)

/-- The elements of all groups, one group after the other. -/
def askAll (evaluator : PathEvaluator) (document : Document) (scope : NodeId) :
    List Group → Served (List NodeId)
  | [] => pure []
  | group :: rest => do
      let first ← askPath evaluator document scope group
      let others ← askAll evaluator document scope rest
      return first ++ others

/-- The first element of the first group that has any; later groups are not asked for. -/
def askFirst (evaluator : PathEvaluator) (document : Document) (scope : NodeId) :
    List Group → Served (Option NodeId)
  | [] => pure none
  | group :: rest => do
      match ← askPath evaluator document scope group with
      | id :: _ => return some id
      | [] => askFirst evaluator document scope rest

/-- All elements that a query selects below a scope. -/
def searchAll (engine : Engine) (document : Document) (scope : NodeId) (query : String) :
    Served (List NodeId) :=
  match engine with
  | .native matcher => askNative query [] (matcher.selectAll document scope query)
  | .path evaluator => do
      let groups ← .ofWarned (Group.parse query)
      askAll evaluator document scope groups
  | .walker => do
      let groups ← .ofWarned (Group.parse query)
      return groups.flatMap (Group.selectAll document scope)

/-- The first element that a query selects below a scope. -/
def searchFirst (engine : Engine) (document : Document) (scope : NodeId) (query : String) :
    Served (Option NodeId) :=
  match engine with
  | .native matcher => askNative query none (matcher.selectFirst document scope query)
  | .path evaluator => do
      let groups ← .ofWarned (Group.parse query)
      askFirst evaluator document scope groups
  | .walker => do
      let groups ← .ofWarned (Group.parse query)
      return groups.findSome? (Group.selectFirst document scope)

/-- Only a document node or an element can be a scope. -/
def isScope (document : Document) (scope : NodeId) : Bool :=
  match document.content? scope with
  | some .document => true
  | some (.element _) => true
  | _ => false

def selectAll (engine : Engine) (document : Document) (scope : NodeId) (query : String) :
    Except QueryError (Served (List NodeId)) :=
  if isScope document scope then .ok (engine.searchAll document scope query)
  else .error (.invalidScope scope)

def selectFirst (engine : Engine) (document : Document) (scope : NodeId) (query : String) :
    Except QueryError (Served (Option NodeId)) :=
  if isScope document scope then .ok (engine.searchFirst document scope query)
  else .error (.invalidScope scope)

end Engine

end ElementQuery

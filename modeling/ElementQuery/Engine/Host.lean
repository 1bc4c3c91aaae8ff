/-
This file holds what a host can offer to an engine: a matcher for selectors and an evaluator for
path expressions.
-/

import ElementQuery.Path.Evaluation
import ElementQuery.Selector.Matching

namespace ElementQuery

/-- A way of finding elements. -/
inductive Backend where
  | native
  | path
  | walker
deriving DecidableEq, Repr

namespace Backend

def name : Backend → String
  | .native => "native"
  | .path => "xpath"
  | .walker => "walker"

def all : List Backend := [.native, .path, .walker]

def ofName? (name : String) : Option Backend := all.find? fun backend => backend.name == name

/-- Every backend is found by its own name. -/
theorem ofName?_name (backend : Backend) : ofName? backend.name = some backend := by
  cases backend <;> decide

end Backend

/-- A matcher of a host is handed the text of the selectors as it is. -/
structure NativeMatcher where
  selectAll : Document → NodeId → String → Except Selector.Error (List NodeId)
  selectFirst : Document → NodeId → String → Except Selector.Error (Option NodeId)

namespace NativeMatcher

/-- A matcher that can only select all elements selects the first of them. -/
def ofAll (selectAll : Document → NodeId → String → Except Selector.Error (List NodeId)) :
    NativeMatcher where
  selectAll := selectAll
  selectFirst document scope text := (selectAll document scope text).map List.head?

/-- The matcher for strict selectors. -/
def strict : NativeMatcher := ⟨Selector.selectAll, Selector.selectFirst⟩

end NativeMatcher

/-- An evaluator of a host selects the nodes of an expression in document order. -/
structure PathEvaluator where
  select : Document → String → NodeId → Except Path.Error (List NodeId)

/-- The evaluator for path expressions. -/
def PathEvaluator.standard : PathEvaluator := ⟨Path.select⟩

/-- A host may offer a matcher, an evaluator, both or neither. -/
structure Host where
  native : Option NativeMatcher := none
  path : Option PathEvaluator := none

namespace Host

def bare : Host := {}

def full : Host := { native := some .strict, path := some .standard }

/-- A matcher is preferred to an evaluator, and that to walking through the document. -/
def preferred (host : Host) : Backend :=
  if host.native.isSome then .native else if host.path.isSome then .path else .walker

end Host

end ElementQuery

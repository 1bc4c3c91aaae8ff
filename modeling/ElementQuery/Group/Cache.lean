/-
This file selects the elements of a group. The element children of a parent are collected once for all steps and
kept, and a group is left as soon as nothing is left to go on from.
-/

import ElementQuery.Group.Walk

namespace ElementQuery.Group

/-- The parents that have been asked for, each with its element children. -/
abbrev SiblingCache := List (NodeId × List NodeId)

/-- A computation that may look up element children. -/
abbrev Cached := StateM SiblingCache

namespace Cached

/-- Element children are looked up, and collected when they are not there yet. -/
def elementChildren (document : Document) (parent : NodeId) : Cached (List NodeId) := do
  match (← get).lookup parent with
  | some children => return children
  | none =>
      let children := document.elementChildren parent
      modify ((parent, children) :: ·)
      return children

def ofTypePosition? (document : Document) (id : NodeId) : Cached (Option (Nat × Nat)) := do
  match document.parent? id with
  | none => return none
  | some parent => return countOfType document id (← elementChildren document parent)

def isNthChild (document : Document) (id : NodeId) (argument : Argument) : Cached Bool := do
  match document.parent? id with
  | none => return false
  | some parent => return argument.picks (← elementChildren document parent) id

/-- Whether an element meets a pseudo-class. The others look at no row of children. -/
def holds (document : Document) (id : NodeId) : PseudoClass → Cached Bool
  | .first .sameTag => return (← ofTypePosition? document id).any fun found => found.1 == 1
  | .last .sameTag => return (← ofTypePosition? document id).any fun found => found.1 == found.2
  | .only .sameTag => return (← ofTypePosition? document id).any fun found => found.2 == 1
  | .nth .any .every => return true
  | .nth .any argument => isNthChild document id argument
  | .nth .sameTag argument =>
      return (← ofTypePosition? document id).any fun found => argument.contains found.1
  | pseudo => return pseudo.holds document id

/-- Every candidate is exchanged, but a row that has been scanned is not scanned again. -/
def exchangeAll (document : Document) (progression : Progression) :
    List (NodeId × String) → List NodeId → Cached (List NodeId)
  | _, [] => return []
  | scanned, candidate :: rest =>
      match siblingRow? document candidate with
      | none => exchangeAll document progression scanned rest
      | some row =>
          if scanned.contains row then exchangeAll document progression scanned rest
          else do
            let children ← elementChildren document row.1
            let others ← exchangeAll document progression (row :: scanned) rest
            return pickFrom document progression candidate children ++ others

/-- A pseudo-class keeps the elements that meet it, or exchanges each for siblings. -/
def apply (document : Document) (candidates : List NodeId) (pseudo : PseudoClass) :
    Cached (List NodeId) := do
  match pseudo.exchange? with
  | some progression => return (← exchangeAll document progression [] candidates).eraseDups
  | none => candidates.filterM fun id => holds document id pseudo

/-- Pseudo-classes are applied in order until no candidate is left. -/
def applyAll (document : Document) : List NodeId → List PseudoClass → Cached (List NodeId)
  | candidates, [] => return candidates
  | candidates, pseudo :: rest =>
      if candidates.isEmpty then return []
      else do applyAll document (← apply document candidates pseudo) rest

/-- The elements to which a step leads. -/
def follow (document : Document) (previous : List NodeId) (step : Step) : Cached (List NodeId) :=
  applyAll document ((step.reach document previous).filter (step.passes document)) step.pseudos

/-- Steps are followed in order until they lead nowhere. -/
def followAll (document : Document) : List NodeId → List Step → Cached (List NodeId)
  | previous, [] => return previous
  | previous, step :: rest => do
      let found ← follow document previous step
      if found.isEmpty then return [] else followAll document found rest

/-- The first element to which a step leads; the others are not looked for unless a pseudo-class
exchanges elements. -/
def followFirst (document : Document) (previous : List NodeId) (step : Step) :
    Cached (Option NodeId) := do
  if step.pseudos.any fun pseudo => pseudo.exchange?.isSome then
    return (← follow document previous step).head?
  else (step.reach document previous).findM? fun id =>
    if step.passes document id then step.pseudos.allM (holds document id) else return false

/-- The first element to which a last step leads after the steps before it. -/
def followToFirst (document : Document) (scope : NodeId) (leading : List Step) (last : Step) :
    Cached (Option NodeId) := do
  let previous ← followAll document [scope] leading
  if previous.isEmpty then return none else followFirst document previous last

end Cached

/-- The elements that a group selects below a scope. -/
def selectAll (document : Document) (scope : NodeId) (group : Group) : List NodeId :=
  if group.isMalformed then []
  else ((Cached.followAll document [scope] group.steps).run []).1

/-- The first element that a group selects below a scope. -/
def selectFirst (document : Document) (scope : NodeId) (group : Group) : Option NodeId :=
  if group.isMalformed then none
  else group.steps.getLast?.bind fun last =>
    ((Cached.followToFirst document scope group.steps.dropLast last).run []).1

end ElementQuery.Group

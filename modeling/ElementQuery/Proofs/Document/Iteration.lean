/-
This file follows the walk below a node one link at a time, without counting its steps, and shows that it ends and
takes the nodes in the order of the recursive traversal of the lists of children.
-/

import ElementQuery.Proofs.Document.Preorder
import ElementQuery.Proofs.Document.Reachable

namespace ElementQuery.Document

section Steps

variable (document : Document) (top : NodeId)

/-- The climb from a node below a top stops at the top, turns aside where there is a next sibling, runs out where
there is neither a sibling nor a parent, and else goes on from the parent. -/
inductive Climbs : NodeId → Option NodeId → Prop
  | stop : Climbs top none
  | aside {id sibling : NodeId} (lower : id ≠ top) (beside : document.next? id = some sibling) :
      Climbs id (some sibling)
  | leave {id : NodeId} (lower : id ≠ top) (last : document.next? id = none)
      (orphan : document.parent? id = none) : Climbs id none
  | rise {id parent : NodeId} {result : Option NodeId} (lower : id ≠ top)
      (last : document.next? id = none) (owned : document.parent? id = some parent)
      (further : Climbs parent result) : Climbs id result

/-- The walk below a top advances from a node to its first child, or to where the climb from it leads. -/
inductive Advances : NodeId → Option NodeId → Prop
  | down {id child : NodeId} (first : document.firstChild? id = some child) : Advances id (some child)
  | climb {id : NodeId} {result : Option NodeId} (childless : document.firstChild? id = none)
      (climbs : Climbs document top id result) : Advances id result

/-- From a place on, the walk below a top takes these nodes and ends. -/
inductive Iterates : Option NodeId → List NodeId → Prop
  | finish : Iterates none []
  | step {id : NodeId} {next : Option NodeId} {rest : List NodeId} (advances : Advances document top id next)
      (later : Iterates next rest) : Iterates (some id) (id :: rest)

/-- The traversal of a row of nodes takes the first of them, all that the traversal of its children takes, and then
what the traversal of the rest of the row takes. -/
inductive Traverses : List NodeId → List NodeId → Prop
  | nil : Traverses [] []
  | cons {id : NodeId} {row below beside : List NodeId} (children : Traverses (document.children id) below)
      (others : Traverses row beside) : Traverses (id :: row) (id :: (below ++ beside))

end Steps

/-- A walk takes the same nodes whenever it ends. -/
theorem Walk.unique {next : NodeId → Option NodeId} {start : Option NodeId} {nodes others : List NodeId}
    (walk : Walk next start nodes) (again : Walk next start others) : nodes = others := by
  rw [← walk.chain_eq (Nat.le_max_left nodes.length others.length),
    again.chain_eq (Nat.le_max_right nodes.length others.length)]

/-- So does a traversal. -/
theorem Traverses.unique {document : Document} {row nodes others : List NodeId}
    (traverses : Traverses document row nodes) (again : Traverses document row others) : nodes = others := by
  induction traverses generalizing others with
  | nil =>
      cases again
      rfl
  | cons _ _ belowHypothesis besideHypothesis =>
      obtain ⟨⟩ | ⟨children, others⟩ := again
      rw [belowHypothesis children, besideHypothesis others]

namespace Linked

variable {document : Document} {top id : NodeId} {next start : Option NodeId} {nodes row : List NodeId}

section Walking

/-- Below the top, the climb from a node leads to its next sibling or else on from its parent. -/
theorem climb?_of_ne (linked : document.Linked) (lower : id ≠ top) :
    document.climb? top document.size id =
      (document.next? id).or ((document.parent? id).bind (document.climb? top document.size)) := by
  cases owned : document.parent? id with
  | some parent => exact linked.climb?_of_parent? owned lower
  | none =>
      have last := (linked.alone owned).2
      rw [last]
      cases document.size with
      | zero => rfl
      | succ steps => simp [climb?, lower, last, owned]

/-- Every climb ends, for every chain of parents does. -/
theorem climbs_climb? (linked : document.Linked) (id : NodeId) :
    Climbs document top id (document.climb? top document.size id) := by
  induction id using linked.grounded.induction with
  | _ id inductionHypothesis =>
      by_cases lower : id = top
      · rw [lower, climb?_self]
        exact .stop
      · rw [linked.climb?_of_ne lower]
        cases last : document.next? id with
        | some sibling => exact .aside lower last
        | none =>
            cases owned : document.parent? id with
            | none => exact .leave lower last owned
            | some parent => exact .rise lower last owned (inductionHypothesis parent owned)

theorem climb?_eq_of_climbs (linked : document.Linked) (climbs : Climbs document top id next) :
    document.climb? top document.size id = next := by
  induction climbs with
  | stop => exact climb?_self
  | aside lower beside => rw [linked.climb?_of_ne lower, beside, Option.some_or]
  | leave lower last orphan => rw [linked.climb?_of_ne lower, last, orphan, Option.bind_none, Option.or_none]
  | rise lower last owned _ inductionHypothesis =>
      rw [linked.climb?_of_ne lower, last, owned, Option.none_or, Option.bind_some, inductionHypothesis]

/-- The walk advances from a node to its successor and nowhere else. -/
theorem advances_iff (linked : document.Linked) :
    Advances document top id next ↔ document.successor? top id = next := by
  rw [successor?]
  constructor
  · intro advances
    cases advances with
    | down first => rw [first]
    | climb childless climbs =>
        rw [childless]
        exact linked.climb?_eq_of_climbs climbs
  · rintro rfl
    cases first : document.firstChild? id with
    | some child => exact .down first
    | none => exact .climb first (linked.climbs_climb? id)

theorem iterates_iff_walk (linked : document.Linked) :
    Iterates document top start nodes ↔ Walk (document.successor? top) start nodes := by
  constructor
  · intro iterates
    induction iterates with
    | finish => exact .finish
    | step advances _ inductionHypothesis =>
        rw [← linked.advances_iff.1 advances] at inductionHypothesis
        exact .step inductionHypothesis
  · intro walk
    induction walk with
    | finish => exact .finish
    | step _ inductionHypothesis => exact .step (linked.advances_iff.2 rfl) inductionHypothesis

end Walking

section Traversing

theorem traverses_flatMap
    (each : ∀ id ∈ row, Traverses document (document.children id) (document.descendants id)) :
    Traverses document row (row.flatMap fun id => id :: document.descendants id) := by
  induction row with
  | nil => exact .nil
  | cons id row inductionHypothesis =>
      obtain ⟨first, rest⟩ := List.forall_mem_cons.1 each
      exact .cons first (inductionHypothesis rest)

/-- The traversal of the children of a node takes the nodes below it, in their order. -/
theorem traverses_descendants (linked : document.Linked) (id : NodeId) :
    Traverses document (document.children id) (document.descendants id) := by
  induction id using linked.childInduction with
  | step id inductionHypothesis =>
      rw [linked.descendants_eq]
      exact traverses_flatMap inductionHypothesis

end Traversing

end Linked

variable {document : Document}

/-- On every document that edits lead to, the walk from the first child of a node ends and takes the nodes below it:
those of the recursive traversal of its children, in this order, which are the nodes that have it among their
ancestors, each of them once. -/
theorem Reachable.iterates_in_preorder (reachable : document.Reachable) (top : NodeId) :
    (∀ nodes, Iterates document top (document.firstChild? top) nodes ↔ nodes = document.descendants top) ∧
      (∀ nodes, Traverses document (document.children top) nodes ↔ nodes = document.descendants top) ∧
      (document.descendants top).Nodup ∧
      (∀ id, id ∈ document.descendants top ↔ top ∈ document.ancestors id) ∧
      ∀ id, top ∈ document.ancestors id ↔ Relation.TransGen
        (fun parent child : NodeId => document.parent? child = some parent) top id := by
  have linked := reachable.linked
  have walk := (linked.descendants_spec top).2.1.walk
  have traverses := linked.traverses_descendants top
  refine ⟨fun nodes => ⟨fun iterates => ?_, ?_⟩, fun nodes => ⟨fun again => again.unique traverses, ?_⟩,
    linked.nodup_descendants top, fun _ => linked.mem_descendants, fun _ => linked.mem_ancestors_iff_transGen⟩
  · exact (linked.iterates_iff_walk.1 iterates).unique walk
  · rintro rfl
    exact linked.iterates_iff_walk.2 walk
  · rintro rfl
    exact traverses

/-- Below a node with a sibling after it, whose parent has one, too, the walk takes a leaf, then an older node and
what hangs below that, and stops. -/
theorem iterates_in_preorder_of_branch : ∃ document : Document, document.Reachable ∧
    document.next? 3 = some 4 ∧ document.next? 1 = some 2 ∧ Iterates document 3 (some 6) [6, 5, 7] ∧
    Traverses document [6, 5] [6, 5, 7] ∧ ∀ id, 3 ∈ document.ancestors id ↔ id ∈ [6, 5, 7] := by
  have ran : (empty.run? [.createElement "a" [], .createElement "b" [], .createElement "c" [],
      .createElement "d" [], .createElement "e" [], .createText "f", .createText "g", .append 0 1, .append 0 2,
      .append 1 3, .append 1 4, .append 3 6, .append 3 5, .append 5 7]).any (fun document =>
        (document.next? 3 = some 4 ∧ document.next? 1 = some 2) ∧
          document.children 3 = [6, 5] ∧ document.descendants 3 = [6, 5, 7]) = true := by
    decide
  obtain ⟨document, reachable, ⟨beside, above⟩, row, below⟩ := exists_reachable ran
  obtain ⟨iterates, traverses, -, members, -⟩ := reachable.iterates_in_preorder 3
  rw [below] at iterates traverses members
  rw [firstChild?, row] at iterates
  rw [row] at traverses
  exact ⟨document, reachable, beside, above, (iterates _).2 rfl, (traverses _).2 rfl,
    fun id => (members id).symm⟩

end ElementQuery.Document

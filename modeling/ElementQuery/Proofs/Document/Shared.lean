/-
This file compares two documents below a scope: where the scope has the same children in both, and every node
below it the same children and content, all that is read below the scope is the same.
-/

import ElementQuery.Proofs.Document.Positions
import ElementQuery.Proofs.Markup.Forest
import Mathlib.Data.List.Find

namespace ElementQuery.Document

/-- Two documents share what hangs below a scope: the scope has the same children in both, and so has every
node below it, with the same content. -/
structure SharesBelow (first second : Document) (scope : NodeId) : Prop where
  row : first.children scope = second.children scope
  below : ∀ id, scope ∈ first.ancestors id →
    first.children id = second.children id ∧ first.content? id = second.content? id

namespace SharesBelow

variable {first second : Document} {scope id other : NodeId}

section Nodes

variable (shared : first.SharesBelow second scope)

include shared

theorem children_eq (within : scope = id ∨ scope ∈ first.ancestors id) :
    first.children id = second.children id := by
  rcases within with rfl | below
  · exact shared.row
  · exact (shared.below id below).1

theorem content?_eq (below : scope ∈ first.ancestors id) : first.content? id = second.content? id :=
  (shared.below id below).2

theorem element?_eq (below : scope ∈ first.ancestors id) : first.element? id = second.element? id := by
  rw [element?, element?, shared.content?_eq below]

theorem isElement_eq (below : scope ∈ first.ancestors id) : first.isElement id = second.isElement id := by
  rw [isElement, isElement, shared.element?_eq below]

theorem tag?_eq (below : scope ∈ first.ancestors id) : first.tag? id = second.tag? id := by
  rw [tag?, tag?, shared.element?_eq below]

theorem hasTag_eq (below : scope ∈ first.ancestors id) (tag : String) :
    first.hasTag id tag = second.hasTag id tag := by
  rw [hasTag, hasTag, shared.element?_eq below]

theorem hasAttribute_eq (below : scope ∈ first.ancestors id) (name : String) :
    first.hasAttribute id name = second.hasAttribute id name := by
  rw [hasAttribute, hasAttribute, attribute?, attribute?, shared.element?_eq below]

theorem sameTag_eq (below : scope ∈ first.ancestors id) (beneath : scope ∈ first.ancestors other) :
    first.sameTag id other = second.sameTag id other := by
  rw [sameTag, sameTag, shared.tag?_eq below, shared.tag?_eq beneath]

end Nodes

section Links

variable (shared : first.SharesBelow second scope) (linked : first.Linked) (others : second.Linked)

include linked

/-- The children of the scope and of what hangs below it hang below the scope. -/
theorem below_of_mem_children (within : scope = id ∨ scope ∈ first.ancestors id)
    (member : other ∈ first.children id) : scope ∈ first.ancestors other :=
  linked.mem_ancestors.2 ⟨id, linked.childIff.1 member, within⟩

/-- So do the siblings after a node below the scope. -/
theorem below_of_mem_followingSiblings (below : scope ∈ first.ancestors id)
    (member : other ∈ first.followingSiblings id) : scope ∈ first.ancestors other := by
  obtain ⟨parent, owned, owns⟩ := linked.parent?_of_mem_siblings (.inl member)
  exact linked.mem_ancestors_of_sibling owned owns below

include shared

theorem elementChildren_eq (within : scope = id ∨ scope ∈ first.ancestors id) :
    first.elementChildren id = second.elementChildren id := by
  rw [elementChildren, elementChildren, ← shared.children_eq within]
  exact List.filter_congr fun child member =>
    shared.isElement_eq (below_of_mem_children linked within member)

include others

/-- A node below the scope has the same parent in both documents. -/
theorem parent?_eq (below : scope ∈ first.ancestors id) : first.parent? id = second.parent? id := by
  obtain ⟨parent, owned, place⟩ := linked.mem_ancestors.1 below
  have member := linked.childIff.2 owned
  rw [shared.children_eq place] at member
  rw [owned, others.childIff.1 member]

/-- The same nodes hang below a node in both documents, in the same order. -/
theorem descendants_eq (within : scope = id ∨ scope ∈ first.ancestors id) :
    first.descendants id = second.descendants id := by
  induction id using linked.childInduction with
  | step id inductionHypothesis =>
      rw [linked.descendants_eq, others.descendants_eq, ← shared.children_eq within]
      refine List.flatMap_congr fun child member => ?_
      rw [inductionHypothesis child member (.inr (below_of_mem_children linked within member))]

theorem elementsByTag_eq (within : scope = id ∨ scope ∈ first.ancestors id) (tag : String) :
    first.elementsByTag id tag = second.elementsByTag id tag := by
  rw [elementsByTag, elementsByTag, ← shared.descendants_eq linked others within]
  refine List.filter_congr fun node member => shared.hasTag_eq ?_ tag
  have above := linked.mem_descendants.1 member
  rcases within with rfl | below
  · exact above
  · exact linked.ancestors_trans below above

/-- A node below the scope stands in the same row in both documents. -/
theorem followingSiblings_eq (below : scope ∈ first.ancestors id) :
    first.followingSiblings id = second.followingSiblings id := by
  obtain ⟨parent, owned, place⟩ := linked.mem_ancestors.1 below
  obtain ⟨before, after, row⟩ := linked.exists_place owned
  have beside := shared.children_eq place
  rw [linked.followingSiblings_eq row, others.followingSiblings_eq (beside.symm.trans row)]

theorem nextElement?_eq (below : scope ∈ first.ancestors id) :
    first.nextElement? id = second.nextElement? id := by
  rw [nextElement?, nextElement?, ← shared.followingSiblings_eq linked others below]
  exact List.find?_congr fun sibling member =>
    shared.isElement_eq (below_of_mem_followingSiblings linked below member)

/-- An element below the scope has the same positions in both documents. -/
theorem positions?_eq (below : scope ∈ first.ancestors id) (kin : Kin) :
    first.positions? kin id = second.positions? kin id := by
  obtain ⟨parent, owned, place⟩ := linked.mem_ancestors.1 below
  have siblings : first.kindred kin parent id = second.kindred kin parent id := by
    cases kin with
    | any => exact shared.elementChildren_eq linked place
    | sameTag =>
        rw [kindred, kindred, ← shared.elementChildren_eq linked place]
        refine List.filter_congr fun sibling member => shared.sameTag_eq ?_ below
        exact below_of_mem_children linked place (List.mem_filter.1 member).1
  rw [positions?, positions?, ← shared.parent?_eq linked others below, owned, Option.bind_some,
    Option.bind_some, siblings]

omit others in
/-- Nodes below the scope look like the same row of trees in both documents. -/
theorem shows {row : List NodeId} {forest : Markup.Forest} (shown : first.Shows row forest)
    (inside : ∀ id ∈ row, scope ∈ first.ancestors id) : second.Shows row forest := by
  induction shown with
  | empty => exact .empty
  | @tree id rest content under beside held _ _ inner outer =>
      have below := inside id List.mem_cons_self
      refine .tree ((shared.content?_eq below).symm.trans held) ?_
        (outer fun other member => inside other (List.mem_cons_of_mem _ member))
      rw [← shared.children_eq (.inr below)]
      exact inner fun child member => below_of_mem_children linked (.inr below) member

/-- The same markup stands inside of a node below the scope. -/
theorem inner_eq (below : scope ∈ first.ancestors id) :
    Markup.inner first id = Markup.inner second id := by
  obtain ⟨forest, shown⟩ := linked.exists_shows id
  have alike := shared.shows linked shown fun child member =>
    below_of_mem_children linked (.inr below) member
  rw [Markup.inner, Markup.inner, ← shared.children_eq (.inr below),
    shown.flatMap_writeNode linked fun _ _ => Nat.le_add_right _ _,
    alike.flatMap_writeNode others fun _ _ => Nat.le_add_right _ _]

end Links

end SharesBelow

end ElementQuery.Document

/-
This file says what hangs below the nodes of a document after one of them has got a new last child: the nodes
around it gain the child at the end if each is the last child of the next, and all others stay as they are.
-/

import ElementQuery.Proofs.Document.Preorder

namespace ElementQuery.Document.Linked

variable {document changed : Document} {id parent child target added : NodeId} {row : List NodeId}

/-- What is a child or hangs below it hangs below its parent. -/
theorem mem_ancestors_of_below (linked : document.Linked)
    (owned : document.parent? id = some parent)
    (under : document.isInclusiveDescendantOf target id = true) :
    parent ∈ document.ancestors target := by
  have above := linked.mem_ancestors_of_parent? owned
  rcases isInclusiveDescendantOf_iff.1 under with rfl | below
  · exact above
  · exact linked.ancestors_trans above below

/-- What does not hang below a node does not hang below its children. -/
theorem apart_of_mem_children (linked : document.Linked)
    (apart : document.isInclusiveDescendantOf target id = false)
    (member : child ∈ document.children id) :
    document.isInclusiveDescendantOf target child = false := by
  rw [← Bool.not_eq_true] at apart ⊢
  intro under
  have above := linked.mem_ancestors_of_below (linked.childIff.1 member) under
  exact apart (isInclusiveDescendantOf_iff.2 (.inr above))

/-- No node hangs below its own children. -/
theorem apart_of_own_child (linked : document.Linked) (member : child ∈ document.children target) :
    document.isInclusiveDescendantOf target child = false := by
  rw [← Bool.not_eq_true]
  intro under
  exact linked.not_mem_ancestors_self _
    (linked.mem_ancestors_of_below (linked.childIff.1 member) under)

/-- What hangs below the last child does not hang below the children before it. -/
theorem apart_of_beside (linked : document.Linked) (placed : document.children parent = row ++ [id])
    (under : document.isInclusiveDescendantOf target id = true) (member : child ∈ row) :
    document.isInclusiveDescendantOf target child = false := by
  rw [← Bool.not_eq_true]
  intro below
  have distinct := linked.distinct parent
  have sibling : child ∈ document.children parent := by simp [placed, member]
  have last : id ∈ document.children parent := by simp [placed]
  rw [placed] at distinct
  have same := linked.child_unique (linked.childIff.1 sibling) (linked.childIff.1 last)
    (isInclusiveDescendantOf_iff.1 below) (isInclusiveDescendantOf_iff.1 under)
  exact (List.nodup_append.1 distinct).2.2 child member id List.mem_cons_self same

section Changes

variable (linked : document.Linked) (relinked : changed.Linked)
  (children : ∀ id, id ≠ target → changed.children id = document.children id)

include linked relinked children

/-- The same nodes as before hang below a node that is not above the target of a change. -/
theorem descendants_of_apart (apart : document.isInclusiveDescendantOf target id = false) :
    changed.descendants id = document.descendants id := by
  induction id using linked.childInduction with
  | step id inductionHypothesis =>
      have different : id ≠ target := by
        rintro rfl
        rw [isInclusiveDescendantOf_iff.2 (.inl rfl)] at apart
        cases apart
      rw [relinked.descendants_eq, linked.descendants_eq, children id different]
      apply List.flatMap_congr
      intro child member
      rw [inductionHypothesis child member (linked.apart_of_mem_children apart member)]

theorem flatMap_descendants_of_apart
    (apart : ∀ child ∈ row, document.isInclusiveDescendantOf target child = false) :
    (row.flatMap fun child => child :: changed.descendants child) =
      row.flatMap fun child => child :: document.descendants child := by
  apply List.flatMap_congr
  intro child member
  rw [descendants_of_apart linked relinked children (apart child member)]

/-- The target gains its new last child at the end. -/
theorem descendants_of_target (placed : changed.children target = document.children target ++ [added])
    (childless : changed.children added = []) :
    changed.descendants target = document.descendants target ++ [added] := by
  have leaf : changed.descendants added = [] := by
    rw [relinked.descendants_eq, childless, List.flatMap_nil]
  rw [relinked.descendants_eq, placed, List.flatMap_append, List.flatMap_singleton, leaf,
    flatMap_descendants_of_apart linked relinked children fun child => linked.apart_of_own_child,
    ← linked.descendants_eq]

/-- A node gains at the end what its last child gains there. -/
theorem descendants_of_last (placed : document.children parent = row ++ [id])
    (under : document.isInclusiveDescendantOf target id = true)
    (grown : changed.descendants id = document.descendants id ++ [added]) :
    changed.descendants parent = document.descendants parent ++ [added] := by
  have owned := linked.childIff.1 (by simp [placed] : id ∈ document.children parent)
  have different : parent ≠ target := by
    rintro rfl
    exact linked.not_mem_ancestors_self _ (linked.mem_ancestors_of_below owned under)
  rw [relinked.descendants_eq, children parent different, linked.descendants_eq, placed,
    List.flatMap_append, List.flatMap_append, List.flatMap_singleton, List.flatMap_singleton, grown,
    flatMap_descendants_of_apart linked relinked children fun child =>
      linked.apart_of_beside placed under]
  simp

end Changes

end ElementQuery.Document.Linked

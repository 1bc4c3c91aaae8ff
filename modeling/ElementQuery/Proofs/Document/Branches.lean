/-
This file tells how two nodes of one tree can lie to each other: they are the same, one hangs below the
other, or they hang below different children of one parent and stand in the order of these.
-/

import ElementQuery.Proofs.Document.Trees
import Mathlib.Data.List.Sort

namespace ElementQuery.Document

/-- A node lies in a branch that stands before the branch of another node, among the children of a
common ancestor. -/
def Precedes (document : Document) (first second : NodeId) : Prop :=
  ∃ parent branch other, [branch, other].Sublist (document.children parent) ∧
    document.isInclusiveDescendantOf first branch = true ∧
    document.isInclusiveDescendantOf second other = true

/-- A node stands before another in its tree: above it, or in a branch that comes first. -/
def Before (document : Document) (first second : NodeId) : Prop :=
  first ∈ document.ancestors second ∨ document.Precedes first second

theorem isInclusiveDescendantOf_self {document : Document} {id : NodeId} :
    document.isInclusiveDescendantOf id id = true :=
  isInclusiveDescendantOf_iff.2 (.inl rfl)

/-- A child of a parent precedes the children after it. -/
theorem precedes_of_children {document : Document} {parent first second : NodeId}
    (row : [first, second].Sublist (document.children parent)) : document.Precedes first second :=
  ⟨parent, first, second, row, isInclusiveDescendantOf_self, isInclusiveDescendantOf_self⟩

/-- Children of a parent stand one before the other. -/
theorem pairwise_before_of_children {document : Document} {parent : NodeId} {nodes : List NodeId}
    (row : nodes.Sublist (document.children parent)) : nodes.Pairwise document.Before :=
  List.pairwise_iff_forall_sublist.2 fun pair => .inr (precedes_of_children (pair.trans row))

theorem compareOrder_self {document : Document} {id : NodeId} :
    document.compareOrder id id = .eq :=
  if_pos rfl

theorem pair_sublist_or {nodes : List NodeId} {first second : NodeId} (one : first ∈ nodes)
    (two : second ∈ nodes) (different : first ≠ second) :
    [first, second].Sublist nodes ∨ [second, first].Sublist nodes := by
  have row := comparePlaces_spec one two
  split at row
  · exact .inl row
  · exact absurd row different
  · exact .inr row

namespace Linked

variable {document : Document} {top parent branch other id first second node : NodeId}

theorem isInclusiveDescendantOf_trans (linked : document.Linked)
    (below : document.isInclusiveDescendantOf first id = true)
    (under : document.isInclusiveDescendantOf id top = true) :
    document.isInclusiveDescendantOf first top = true := by
  rw [isInclusiveDescendantOf_iff] at below under ⊢
  rcases below with rfl | below
  · exact under
  · rcases under with rfl | under
    · exact .inr below
    · exact .inr (linked.ancestors_trans under below)

/-- A node below another, or the node itself, belongs to the same tree. -/
theorem top_of_isInclusiveDescendantOf (linked : document.Linked)
    (below : document.isInclusiveDescendantOf id top = true) :
    document.top id = document.top top := by
  rcases isInclusiveDescendantOf_iff.1 below with rfl | under
  · rfl
  · exact linked.top_of_mem_ancestors under

/-- What hangs below two nodes precedes as these do. -/
theorem precedes_below (linked : document.Linked) (precedes : document.Precedes branch other)
    (left : document.isInclusiveDescendantOf first branch = true)
    (right : document.isInclusiveDescendantOf second other = true) :
    document.Precedes first second := by
  obtain ⟨parent, front, back, row, one, two⟩ := precedes
  exact ⟨parent, front, back, row, linked.isInclusiveDescendantOf_trans left one,
    linked.isInclusiveDescendantOf_trans right two⟩

/-- Nothing hangs below both of two nodes in different branches. -/
theorem not_below_of_precedes (linked : document.Linked) (precedes : document.Precedes first second)
    (left : document.isInclusiveDescendantOf id first = true) :
    ¬ document.isInclusiveDescendantOf id second = true := by
  intro right
  obtain ⟨parent, branch, other, row, one, two⟩ := precedes
  have owned := linked.childIff.1 (row.subset (by simp : branch ∈ [branch, other]))
  have owns := linked.childIff.1 (row.subset (by simp : other ∈ [branch, other]))
  have below := isInclusiveDescendantOf_iff.1 (linked.isInclusiveDescendantOf_trans left one)
  have under := isInclusiveDescendantOf_iff.1 (linked.isInclusiveDescendantOf_trans right two)
  obtain rfl := linked.child_unique owned owns below under
  have twice := row.nodup (linked.distinct parent)
  simp at twice

/-- Of two nodes in different branches none hangs below the other. -/
theorem not_precedes_of_below (linked : document.Linked)
    (below : document.isInclusiveDescendantOf first second = true) :
    ¬ document.Precedes first second ∧ ¬ document.Precedes second first :=
  ⟨fun precedes => linked.not_below_of_precedes precedes isInclusiveDescendantOf_self below,
    fun precedes => linked.not_below_of_precedes precedes below isInclusiveDescendantOf_self⟩

/-- A node stands in the order of its tree before the nodes below it and those that it precedes. -/
theorem pair_sublist_of_before (linked : document.Linked) (before : document.Before first second) :
    [first, second].Sublist (document.treeOrder first) := by
  rcases before with above | ⟨parent, branch, other, row, one, two⟩
  · exact linked.before_of_mem_ancestors (isInclusiveDescendantOf_top first) above
  · have owned := linked.childIff.1 (row.subset (by simp : branch ∈ [branch, other]))
    have same : document.top first = document.top parent := by
      rw [linked.top_of_isInclusiveDescendantOf one, linked.top_of_parent? owned]
    refine linked.before_of_siblings ?_ row one two
    rw [same]
    exact isInclusiveDescendantOf_top parent

theorem compareOrder_of_pair_sublist (linked : document.Linked)
    (row : [first, second].Sublist (document.treeOrder node)) :
    document.compareOrder first second = .lt ∧ document.compareOrder second first = .gt := by
  have left := linked.mem_subtree.1 (row.subset (by simp : first ∈ [first, second]))
  have right := linked.mem_subtree.1 (row.subset (by simp : second ∈ [first, second]))
  have earlier := idxOf_lt_of_pair_sublist (linked.nodup_subtree _) row
  rw [linked.compareOrder_eq_compare left right, linked.compareOrder_eq_compare right left]
  exact ⟨Nat.compare_eq_lt.2 earlier, Nat.compare_eq_gt.2 earlier⟩

/-- Nodes one of which stands before the other compare so. -/
theorem compareOrder_of_before (linked : document.Linked) (before : document.Before first second) :
    document.compareOrder first second = .lt ∧ document.compareOrder second first = .gt :=
  linked.compareOrder_of_pair_sublist (linked.pair_sublist_of_before before)

theorem not_before_of_before (linked : document.Linked) (before : document.Before first second) :
    ¬ document.Before second first := by
  intro back
  have forwards := (linked.compareOrder_of_before before).1
  rw [(linked.compareOrder_of_before back).2] at forwards
  cases forwards

theorem not_before_self (linked : document.Linked) (id : NodeId) : ¬ document.Before id id :=
  fun before => linked.not_before_of_before before before

/-- Two nodes below a common one are the same, hang one below the other, or lie in different branches.
The induction goes down from the common node to the one where their branches part. -/
theorem position_of_isInclusiveDescendantOf (linked : document.Linked)
    (left : document.isInclusiveDescendantOf first top = true)
    (right : document.isInclusiveDescendantOf second top = true) :
    first = second ∨ first ∈ document.ancestors second ∨ second ∈ document.ancestors first ∨
      document.Precedes first second ∨ document.Precedes second first := by
  induction top using linked.childInduction with
  | step top inductionHypothesis =>
      rcases isInclusiveDescendantOf_iff.1 left with rfl | below
      · exact (isInclusiveDescendantOf_iff.1 right).imp Eq.symm .inl
      rcases isInclusiveDescendantOf_iff.1 right with rfl | under
      · exact .inr (.inr (.inl below))
      obtain ⟨branch, owned, place⟩ := linked.exists_child below
      obtain ⟨other, owns, spot⟩ := linked.exists_child under
      have one := isInclusiveDescendantOf_iff.2 place
      have two := isInclusiveDescendantOf_iff.2 spot
      have member := linked.childIff.2 owned
      have belongs := linked.childIff.2 owns
      by_cases same : branch = other
      · subst same
        exact inductionHypothesis branch member one two
      · rcases pair_sublist_or member belongs same with row | row
        · exact .inr (.inr (.inr (.inl ⟨top, branch, other, row, one, two⟩)))
        · exact .inr (.inr (.inr (.inr ⟨top, other, branch, row, two, one⟩)))

/-- Of two nodes of one tree, one stands before the other. -/
theorem before_or_before (linked : document.Linked)
    (same : document.top first = document.top second) :
    first = second ∨ document.Before first second ∨ document.Before second first := by
  rcases linked.position_of_isInclusiveDescendantOf (isInclusiveDescendantOf_top first)
    (same ▸ isInclusiveDescendantOf_top second) with equal | above | below | precedes | behind
  · exact .inl equal
  · exact .inr (.inl (.inl above))
  · exact .inr (.inr (.inl below))
  · exact .inr (.inl (.inr precedes))
  · exact .inr (.inr (.inr behind))

/-- Comparing two nodes of one tree tells which of them stands before the other. -/
theorem compareOrder_eq_lt_iff (linked : document.Linked)
    (same : document.top first = document.top second) :
    document.compareOrder first second = .lt ↔ document.Before first second := by
  refine ⟨fun earlier => ?_, fun before => (linked.compareOrder_of_before before).1⟩
  rcases linked.before_or_before same with rfl | before | back
  · rw [compareOrder_self] at earlier
    cases earlier
  · exact before
  · rw [(linked.compareOrder_of_before back).2] at earlier
    cases earlier

/-- Nodes that stand in the order of a tree stand one before the other. -/
theorem before_of_pair_sublist (linked : document.Linked)
    (row : [first, second].Sublist (document.treeOrder node)) : document.Before first second := by
  have left := linked.mem_treeOrder.1 (row.subset (by simp : first ∈ [first, second]))
  have right := linked.mem_treeOrder.1 (row.subset (by simp : second ∈ [first, second]))
  exact (linked.compareOrder_eq_lt_iff (left.trans right.symm)).1
    (linked.compareOrder_of_pair_sublist row).1

/-- So do several nodes in the order of a tree. -/
theorem pairwise_before_of_sublist (linked : document.Linked) {nodes : List NodeId}
    (ordered : nodes.Sublist (document.treeOrder node)) : nodes.Pairwise document.Before :=
  List.pairwise_iff_forall_sublist.2 fun row => linked.before_of_pair_sublist (row.trans ordered)

theorem pairwise_descendants (linked : document.Linked) (id : NodeId) :
    (document.descendants id).Pairwise document.Before :=
  linked.pairwise_before_of_sublist
    ((List.sublist_cons_self _ _).trans (linked.subtree_sublist (isInclusiveDescendantOf_top id)))

/-- Some of the nodes in a row, one before the other, stand so in the row, for no two nodes stand both ways. -/
theorem sublist_of_pairwise_before (linked : document.Linked) {nodes row : List NodeId}
    (ordered : nodes.Pairwise document.Before) (sorted : row.Pairwise document.Before)
    (inside : nodes ⊆ row) : nodes.Sublist row := by
  have oneWay : Std.Antisymm document.Before :=
    ⟨fun _ _ before back => absurd back (linked.not_before_of_before before)⟩
  have apart : Std.Irrefl document.Before := ⟨linked.not_before_self⟩
  exact List.sublist_of_subperm_of_pairwise (List.subperm_of_subset ordered.nodup inside) ordered sorted

theorem mem_followingSiblings (linked : document.Linked) :
    other ∈ document.followingSiblings id ↔
      ∃ parent, [id, other].Sublist (document.children parent) := by
  constructor
  · intro member
    obtain ⟨between, after, siblings⟩ := List.append_of_mem member
    obtain ⟨parent, before, place⟩ := linked.followingSiblings_eq_iff.1 siblings
    refine ⟨parent, ?_⟩
    rw [place]
    refine .trans ?_ (List.sublist_append_right _ _)
    exact (List.singleton_sublist.2 (by simp)).cons_cons id
  · rintro ⟨parent, row⟩
    obtain ⟨front, back, place, leading, later⟩ := List.cons_sublist_iff.1 row
    obtain ⟨before, between, rfl⟩ := List.append_of_mem leading
    rw [List.append_assoc, List.cons_append] at place
    rw [linked.followingSiblings_eq place]
    exact List.mem_append_right _ (List.singleton_sublist.1 later)

theorem mem_precedingSiblings (linked : document.Linked) :
    other ∈ document.precedingSiblings id ↔
      ∃ parent, [other, id].Sublist (document.children parent) := by
  constructor
  · intro member
    obtain ⟨between, before, siblings⟩ := List.append_of_mem member
    obtain ⟨parent, after, place⟩ := linked.precedingSiblings_eq_iff.1 siblings
    refine ⟨parent, ?_⟩
    rw [place]
    refine .trans ?_ (List.sublist_append_right _ _)
    exact (List.singleton_sublist.2 (by simp)).cons_cons other
  · rintro ⟨parent, row⟩
    obtain ⟨front, back, place, leading, later⟩ := List.cons_sublist_iff.1 row
    obtain ⟨between, after, rfl⟩ := List.append_of_mem (List.singleton_sublist.1 later)
    rw [← List.append_assoc] at place
    rw [linked.precedingSiblings_eq place, List.mem_reverse]
    exact List.mem_append_left _ leading

/-- The siblings after a node, and in reverse those before it, stand in the row of a parent. -/
theorem siblings_sublist (linked : document.Linked) (id : NodeId) : ∃ parent,
    (document.followingSiblings id).Sublist (document.children parent) ∧
      (document.precedingSiblings id).reverse.Sublist (document.children parent) := by
  cases owned : document.parent? id with
  | none =>
      rw [(linked.siblings_of_parent?_eq_none owned).1, (linked.siblings_of_parent?_eq_none owned).2]
      exact ⟨id, List.nil_sublist _, List.nil_sublist _⟩
  | some parent =>
      obtain ⟨before, after, place⟩ := linked.exists_place owned
      refine ⟨parent, ?_⟩
      rw [linked.followingSiblings_eq place, linked.precedingSiblings_eq place, List.reverse_reverse,
        place]
      exact ⟨(List.sublist_cons_self _ _).trans (List.sublist_append_right _ _),
        List.sublist_append_left _ _⟩

/-- Each node of a line of ancestors lies below the later ones. -/
theorem pairwise_lineage (linked : document.Linked) (id : NodeId) :
    (id :: document.ancestors id).Pairwise fun first second =>
      second ∈ document.ancestors first := by
  induction id using linked.grounded.induction with
  | _ id inductionHypothesis =>
      refine List.pairwise_cons.2 ⟨fun ancestor above => above, ?_⟩
      cases owned : document.parent? id with
      | none =>
          rw [ancestors_of_parent?_eq_none owned]
          exact .nil
      | some parent =>
          rw [linked.ancestors_of_parent? owned]
          exact inductionHypothesis parent owned

end Linked

end ElementQuery.Document

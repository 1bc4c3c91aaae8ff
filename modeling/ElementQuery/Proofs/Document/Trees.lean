/-
This file tells the trees of a document apart by their topmost nodes: whoever is linked to a node by
parents, children or siblings belongs to the same tree.
-/

import ElementQuery.Proofs.Document.TreeOrder
import Mathlib.Data.List.Sort

namespace ElementQuery.Document

variable {document : Document} {id parent ancestor node other : NodeId}

theorem top_of_parent?_eq_none (orphan : document.parent? id = none) : document.top id = id := by
  rw [top, Linked.ancestors_of_parent?_eq_none orphan]
  rfl

namespace Linked

/-- A node has the same topmost ancestor as its parent. -/
theorem top_of_parent? (linked : document.Linked) (owned : document.parent? id = some parent) :
    document.top id = document.top parent := by
  rw [top, top, linked.ancestors_of_parent? owned, List.getLast?_cons, Option.getD_some]

theorem parent?_top (linked : document.Linked) (id : NodeId) :
    document.parent? (document.top id) = none := by
  induction id using linked.grounded.induction with
  | _ id inductionHypothesis =>
      cases owned : document.parent? id with
      | none => rw [top_of_parent?_eq_none owned, owned]
      | some parent =>
          rw [linked.top_of_parent? owned]
          exact inductionHypothesis parent owned

/-- A node has the same topmost ancestor as each of its ancestors. -/
theorem top_of_mem_ancestors (linked : document.Linked)
    (above : ancestor ∈ document.ancestors id) : document.top id = document.top ancestor := by
  induction id using linked.grounded.induction with
  | _ id inductionHypothesis =>
      obtain ⟨parent, owned, place⟩ := linked.mem_ancestors.1 above
      rw [linked.top_of_parent? owned]
      rcases place with rfl | further
      · rfl
      · exact inductionHypothesis parent owned further

/-- A node has the same topmost ancestor as each of its siblings. -/
theorem top_of_mem_siblings (linked : document.Linked)
    (member : other ∈ document.followingSiblings id ∨ other ∈ document.precedingSiblings id) :
    document.top other = document.top id := by
  obtain ⟨parent, owned, owns⟩ := linked.parent?_of_mem_siblings member
  rw [linked.top_of_parent? owned, linked.top_of_parent? owns]

/-- A node is the topmost node of its tree or hangs below it. -/
theorem isInclusiveDescendantOf_top (id : NodeId) :
    document.isInclusiveDescendantOf id (document.top id) = true := by
  rw [isInclusiveDescendantOf_iff, top]
  cases last : (document.ancestors id).getLast? with
  | none => exact .inl rfl
  | some ancestor => exact .inr (List.mem_of_getLast? last)

/-- The order of a tree names the nodes with one topmost ancestor. -/
theorem mem_treeOrder (linked : document.Linked) :
    id ∈ document.treeOrder node ↔ document.top id = document.top node := by
  rw [treeOrder, linked.mem_subtree]
  constructor
  · intro inside
    have still := top_of_parent?_eq_none (linked.parent?_top node)
    rcases isInclusiveDescendantOf_iff.1 inside with rfl | below
    · exact still
    · rw [linked.top_of_mem_ancestors below, still]
  · intro same
    rw [← same]
    exact isInclusiveDescendantOf_top id

/-- The order of a tree names no node twice. -/
theorem nodup_treeOrder (linked : document.Linked) (node : NodeId) :
    (document.treeOrder node).Nodup :=
  linked.nodup_subtree (document.top node)

end Linked

/-- Sorted by an order without repetitions that names all of them, nodes stand as in the order. -/
theorem sortBy_sublist {order nodes : List NodeId} (distinct : order.Nodup)
    (inside : nodes ⊆ order) : (sortBy order nodes).Sublist order := by
  have none : (nodes.filter fun id => !order.contains id) = [] := by
    simpa using fun id member => inside member
  rw [sortBy_eq_arrange distinct, arrange, none]
  simp [mergeEqual]

/-- Neighbours merged, what does not decrease increases. -/
theorem pairwise_mergeEqual {nodes : List NodeId} (sorted : nodes.Pairwise (· ≤ ·)) :
    (mergeEqual nodes).Pairwise (· < ·) := by
  induction nodes with
  | nil => exact .nil
  | cons first rest inductionHypothesis =>
      obtain ⟨least, others⟩ := List.pairwise_cons.1 sorted
      rw [mergeEqual]
      split
      · exact inductionHypothesis others
      · rename_i different
        apply List.pairwise_cons.2
        refine ⟨fun id member => ?_, inductionHypothesis others⟩
        have later := mem_mergeEqual.1 member
        cases rest with
        | nil => cases later
        | cons next rest =>
            have distinct : next ≠ first := by simpa using different
            have above := least next List.mem_cons_self
            have behind : next ≤ id := by
              rcases List.mem_cons.1 later with rfl | further
              · exact Nat.le_refl _
              · exact (List.pairwise_cons.1 others).1 id further
            exact Nat.lt_of_lt_of_le (Nat.lt_of_le_of_ne above distinct.symm) behind

/-- In an order without repetitions, the same nodes are sorted alike, however often they come and in
whatever row. -/
theorem sortBy_congr {order nodes others : List NodeId} (distinct : order.Nodup)
    (same : ∀ id, id ∈ nodes ↔ id ∈ others) : sortBy order nodes = sortBy order others := by
  have known : (order.filter fun id => nodes.contains id) =
      order.filter fun id => others.contains id := by
    apply List.filter_congr
    intro id _
    rw [Bool.eq_iff_iff, List.contains_iff_mem, List.contains_iff_mem, same]
  have increasing : ∀ row : List NodeId, (mergeEqual row.mergeSort).Pairwise (· < ·) := fun row =>
    pairwise_mergeEqual (by simpa using List.pairwise_mergeSort' (· ≤ ·) row)
  have left : mergeEqual (nodes.filter fun id => !order.contains id).mergeSort =
      mergeEqual (others.filter fun id => !order.contains id).mergeSort := by
    apply (increasing _).eq_of_mem_iff (increasing _)
    simp [mem_mergeEqual, same]
  rw [sortBy_eq_arrange distinct, sortBy_eq_arrange distinct, arrange, arrange, known, left]

/-- What stands as in an order without repetitions has increasing places in it. -/
theorem pairwise_idxOf_of_sublist {order nodes : List NodeId} (distinct : order.Nodup)
    (inside : nodes.Sublist order) :
    nodes.Pairwise fun first second => order.idxOf first < order.idxOf second :=
  List.pairwise_iff_forall_sublist.2 fun before =>
    idxOf_lt_of_pair_sublist distinct (before.trans inside)

end ElementQuery.Document

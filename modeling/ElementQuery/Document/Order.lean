/-
This file puts nodes into document order and finds the first element with an id.
-/

import ElementQuery.Document.Traversal

namespace ElementQuery.Document

/-- The length of the longest common beginning of two paths. -/
def sharedLength : List NodeId → List NodeId → Nat
  | first :: rest, second :: more => if first = second then sharedLength rest more + 1 else 0
  | _, _ => 0

/-- A missing place comes before every place. -/
def comparePlaces : Option Nat → Option Nat → Ordering
  | none, none => .eq
  | none, some _ => .lt
  | some _, none => .gt
  | some first, some second => compare first second

/-- Two nodes of one tree are compared where their paths part: an ancestor comes before what hangs
below it, and siblings stand as among the children. Nodes of different trees are compared by age. -/
def compareOrder (document : Document) (first second : NodeId) : Ordering :=
  if first = second then .eq
  else
    let path := document.pathFromTop first
    let otherPath := document.pathFromTop second
    let shared := sharedLength path otherPath
    if shared = 0 then compare first second
    else match path[shared]?, otherPath[shared]? with
      | some branch, some otherBranch =>
          let siblings := ((path[shared - 1]?).map document.children).getD []
          comparePlaces (siblings.idxOf? branch) (siblings.idxOf? otherBranch)
      | _, _ => compare path.length otherPath.length

/-- The earliest of several nodes, the first named one of equals. -/
def earliest? (document : Document) : List NodeId → Option NodeId
  | [] => none
  | id :: rest => some (rest.foldl (fun best other =>
      if document.compareOrder best other = .gt then other else best) id)

/-- Of the connected elements in the register under an id, the first in document order. -/
def elementById? (document : Document) (name : String) : Option NodeId :=
  document.earliest? (((document.register.filter fun entry => entry.1 == name).map
    Prod.snd).filter document.isConnected)

/-- Neighbours that are equal are merged. -/
def mergeEqual : List NodeId → List NodeId
  | [] => []
  | id :: rest => if rest.head? = some id then mergeEqual rest else id :: mergeEqual rest

/-- All nodes of the tree that a node belongs to, in document order. -/
def treeOrder (document : Document) (id : NodeId) : List NodeId :=
  document.top id :: document.descendants (document.top id)

/-- The nodes of an order that are among given nodes, and behind them, by age, the given nodes that
the order does not have. -/
def arrange (order nodes : List NodeId) : List NodeId :=
  (order.filter fun id => nodes.contains id) ++
    mergeEqual ((nodes.filter fun id => !order.contains id).mergeSort)

/-- Nodes are put into a given order without repetitions. Nodes that stand in this order already, or
stand in it when they are read backwards, need not be searched for. -/
def sortBy (order nodes : List NodeId) : List NodeId :=
  if nodes.isSublist order then nodes
  else if nodes.reverse.isSublist order then nodes.reverse
  else arrange order nodes

theorem mem_mergeEqual {id : NodeId} {nodes : List NodeId} :
    id ∈ mergeEqual nodes ↔ id ∈ nodes := by
  induction nodes with
  | nil => simp [mergeEqual]
  | cons first rest inductionHypothesis =>
      rw [mergeEqual]
      split
      · rename_i same
        rw [inductionHypothesis, List.mem_cons]
        refine ⟨Or.inr, fun member => ?_⟩
        rcases member with rfl | member
        · exact List.mem_of_mem_head? (by simp [same])
        · exact member
      · simp [inductionHypothesis]

/-- Arranging neither loses nor adds a node. -/
theorem mem_arrange {id : NodeId} {order nodes : List NodeId} :
    id ∈ arrange order nodes ↔ id ∈ nodes := by
  by_cases known : id ∈ order <;> simp [arrange, mem_mergeEqual, known]

/-- Sorting neither loses nor adds a node. -/
theorem mem_sortBy {id : NodeId} {order nodes : List NodeId} :
    id ∈ sortBy order nodes ↔ id ∈ nodes := by
  unfold sortBy
  split
  · rfl
  · split
    · exact List.mem_reverse
    · exact mem_arrange

/-- What stands in an order without repetitions is all that the order has of it. -/
theorem filter_contains_of_sublist {order nodes : List NodeId} (inside : nodes.Sublist order)
    (distinct : order.Nodup) : (order.filter fun id => nodes.contains id) = nodes := by
  induction inside with
  | slnil => rfl
  | cons id inside inductionHypothesis =>
      rw [List.nodup_cons] at distinct
      rw [List.filter_cons_of_neg (by simpa using fun member => distinct.1 (inside.subset member)),
        inductionHypothesis distinct.2]
  | cons_cons id inside inductionHypothesis =>
      rw [List.nodup_cons] at distinct
      rw [List.filter_cons_of_pos (by simp)]
      congr 1
      refine (List.filter_congr fun other member => ?_).trans (inductionHypothesis distinct.2)
      have different : other ≠ id := fun same => distinct.1 (same ▸ member)
      simp [different]

/-- Nodes that stand in an order without repetitions are arranged already. -/
theorem arrange_of_sublist {order nodes : List NodeId} (inside : nodes.Sublist order)
    (distinct : order.Nodup) : arrange order nodes = nodes := by
  have none : (nodes.filter fun id => !order.contains id) = [] := by
    simpa using fun id member => inside.subset member
  rw [arrange, filter_contains_of_sublist inside distinct, none]
  simp [mergeEqual]

/-- Nodes that stand in an order without repetitions when they are read backwards are arranged by
reading them so. -/
theorem arrange_reverse_of_sublist {order nodes : List NodeId}
    (inside : nodes.reverse.Sublist order) (distinct : order.Nodup) :
    arrange order nodes = nodes.reverse := by
  have none : (nodes.filter fun id => !order.contains id) = [] := by
    simpa using fun id member => inside.subset (List.mem_reverse.2 member)
  have kept := filter_contains_of_sublist inside distinct
  simp only [List.contains_reverse] at kept
  rw [arrange, kept, none]
  simp [mergeEqual]

/-- In an order without repetitions, sorting is arranging. -/
theorem sortBy_eq_arrange {order nodes : List NodeId} (distinct : order.Nodup) :
    sortBy order nodes = arrange order nodes := by
  unfold sortBy
  split
  · rename_i inside
    exact (arrange_of_sublist (List.isSublist_iff_sublist.1 inside) distinct).symm
  · split
    · rename_i inside
      exact (arrange_reverse_of_sublist (List.isSublist_iff_sublist.1 inside) distinct).symm
    · rfl

end ElementQuery.Document

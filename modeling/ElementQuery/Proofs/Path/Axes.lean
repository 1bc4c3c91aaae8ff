/-
This file shows that the axes divide the tree around each of its nodes and list their nodes in document
order, forwards or backwards as the direction of the axis says.
-/

import ElementQuery.Proofs.Document.Comparison
import ElementQuery.Proofs.Path.NodeOrder

namespace ElementQuery.Path

variable {document : Document} {id other node : NodeId} {nodes : List NodeId}

section Members

theorem mem_lineage : other ∈ lineage document id ↔
    document.isInclusiveDescendantOf id other = true := by
  rw [lineage, List.mem_cons, Document.isInclusiveDescendantOf_iff, eq_comm]

/-- The nodes that a node precedes are on its following axis. -/
theorem mem_following (linked : document.Linked) :
    other ∈ following document id ↔ document.Precedes id other := by
  simp only [following, flank, subtree, List.mem_mergeSort, List.mem_flatMap, mem_lineage,
    linked.mem_subtree, linked.mem_followingSiblings]
  constructor
  · rintro ⟨start, upwards, branch, ⟨parent, row⟩, under⟩
    exact ⟨parent, start, branch, row, upwards, under⟩
  · rintro ⟨parent, start, branch, row, upwards, under⟩
    exact ⟨start, upwards, branch, ⟨parent, row⟩, under⟩

/-- The nodes that precede a node are on its preceding axis. -/
theorem mem_preceding (linked : document.Linked) :
    other ∈ preceding document id ↔ document.Precedes other id := by
  simp only [preceding, flank, subtree, List.mem_mergeSort, List.mem_flatMap, mem_lineage,
    linked.mem_subtree, linked.mem_precedingSiblings]
  constructor
  · rintro ⟨start, upwards, branch, ⟨parent, row⟩, under⟩
    exact ⟨parent, branch, start, row, under, upwards⟩
  · rintro ⟨parent, branch, start, row, under, upwards⟩
    exact ⟨start, upwards, branch, ⟨parent, row⟩, under⟩

end Members

section Gathering

/-- Two nodes are different children of one parent. -/
def Beside (document : Document) (first second : NodeId) : Prop :=
  ∃ parent, [first, second].Sublist (document.children parent) ∨
    [second, first].Sublist (document.children parent)

/-- Nothing hangs below two different children of one parent. -/
theorem Beside.disjoint (linked : document.Linked) (beside : Beside document id other) :
    (subtree document id).Disjoint (subtree document other) := by
  intro node left right
  have under := linked.mem_subtree.1 left
  have below := linked.mem_subtree.1 right
  obtain ⟨parent, row | row⟩ := beside
  · exact linked.not_below_of_precedes (Document.precedes_of_children row) under below
  · exact linked.not_below_of_precedes (Document.precedes_of_children row) below under

/-- What hangs below another child of the parent of a node hangs below the ancestors of the node. -/
theorem Beside.below (linked : document.Linked) (beside : Beside document id other)
    (above : node ∈ document.ancestors id) : node ∈ document.ancestors other := by
  obtain ⟨parent, row⟩ := beside
  have members : id ∈ document.children parent ∧ other ∈ document.children parent := by
    rcases row with row | row <;> exact ⟨row.subset (by simp), row.subset (by simp)⟩
  exact linked.mem_ancestors_of_sibling (linked.childIff.1 members.1) (linked.childIff.1 members.2) above

/-- No node is gathered twice: the subtrees of siblings share nothing, and what is gathered beside an
ancestor does not hang below it, as all does that is gathered nearer. -/
theorem nodup_flank (linked : document.Linked) {siblings : NodeId → List NodeId}
    (rows : ∀ start, (start :: siblings start).Pairwise (Beside document)) (id : NodeId) :
    (flank document siblings id).Nodup := by
  refine List.nodup_flatMap.2 ⟨fun start _ => ?row, (linked.pairwise_lineage id).imp ?apart⟩
  case row =>
    refine List.nodup_flatMap.2 ⟨fun branch _ => linked.nodup_subtree branch, ?_⟩
    exact (List.pairwise_cons.1 (rows start)).2.imp (Beside.disjoint linked)
  case apart =>
    intro near far above node one two
    obtain ⟨branch, beside, under⟩ := List.mem_flatMap.1 one
    obtain ⟨other, aside, below⟩ := List.mem_flatMap.1 two
    have inside : document.isInclusiveDescendantOf node far = true :=
      linked.isInclusiveDescendantOf_trans (linked.mem_subtree.1 under)
        (Document.isInclusiveDescendantOf_iff.2
          (.inr (((List.pairwise_cons.1 (rows near)).1 branch beside).below linked above)))
    exact ((List.pairwise_cons.1 (rows far)).1 other aside).disjoint linked
      (linked.mem_subtree.2 inside) below

/-- A node and its siblings on either side are different children of one parent. -/
theorem pairwise_beside (linked : document.Linked) (id : NodeId) :
    (id :: document.followingSiblings id).Pairwise (Beside document) ∧
      (id :: document.precedingSiblings id).Pairwise (Beside document) := by
  obtain ⟨parent, after, before⟩ := linked.siblings_sublist id
  constructor
  · refine List.pairwise_cons.2 ⟨fun other member => ?_, ?_⟩
    · obtain ⟨parent, row⟩ := linked.mem_followingSiblings.1 member
      exact ⟨parent, .inl row⟩
    · exact List.pairwise_iff_forall_sublist.2 fun pair => ⟨parent, .inl (pair.trans after)⟩
  · refine List.pairwise_cons.2 ⟨fun other member => ?_, ?_⟩
    · obtain ⟨parent, row⟩ := linked.mem_precedingSiblings.1 member
      exact ⟨parent, .inr row⟩
    · exact List.pairwise_iff_forall_sublist.2 fun pair => ⟨parent, .inr (pair.reverse.trans before)⟩

end Gathering

section Order

/-- In a line of ancestors the later ones stand before the nearer ones. -/
theorem pairwise_of_lineage (linked : document.Linked)
    (line : nodes.Sublist (lineage document id)) :
    nodes.Pairwise fun first second => document.Before second first :=
  ((linked.pairwise_lineage id).sublist line).imp .inl

/-- A merge sort by a comparison that agrees with that of places puts the places in order. -/
theorem pairwise_places_mergeSort {order : NodeId → NodeId → Bool} {places : Nat → Nat → Bool}
    {place : NodeId → Nat}
    (agree : ∀ first ∈ nodes, ∀ second ∈ nodes, order first second = places (place first) (place second))
    (trans : ∀ one two three, places one two = true → places two three = true → places one three = true)
    (total : ∀ one two, (places one two || places two one) = true) :
    (nodes.mergeSort order).Pairwise fun first second => places (place first) (place second) = true := by
  have sorted := List.pairwise_mergeSort trans total (nodes.map place)
  rwa [← List.map_mergeSort agree, List.pairwise_map] at sorted

/-- Different nodes of one tree that are sorted by comparing them stand one before the other, and the other
way round when they are compared so. -/
theorem pairwise_before_mergeSort (linked : document.Linked) (distinct : nodes.Nodup)
    (inside : ∀ other ∈ nodes, document.top other = document.top id) :
    ((nodes.mergeSort fun first second => (document.compareOrder first second).isLE).Pairwise
        document.Before) ∧
      (nodes.mergeSort fun first second => (document.compareOrder second first).isLE).Pairwise
        fun first second => document.Before second first := by
  let place : NodeId → Nat := (document.treeOrder id).idxOf
  have compared : ∀ first ∈ nodes, ∀ second ∈ nodes,
      (document.compareOrder first second).isLE = decide (place first ≤ place second) := by
    intro first one second two
    rw [linked.compareOrder_eq_compare_idxOf (inside first one) (inside second two), Bool.eq_iff_iff,
      Nat.isLE_compare, decide_eq_true_iff]
  have before : ∀ first ∈ nodes, ∀ second ∈ nodes, place first ≤ place second → first ≠ second →
      document.Before first second := by
    intro first one second two reached different
    rw [linked.before_iff_idxOf_lt (inside first one) (inside second two)]
    refine Nat.lt_of_le_of_ne reached fun same => different ?_
    exact (List.idxOf_inj (linked.mem_treeOrder.2 (inside first one))).1 same
  constructor
  · have sorted := @pairwise_places_mergeSort nodes _ (fun one two => decide (one ≤ two)) place compared
      (by grind) (by grind)
    refine (sorted.and ((List.mergeSort_perm _ _).nodup_iff.2 distinct)).imp_of_mem ?_
    intro first second one two ordered
    exact before first (List.mem_mergeSort.1 one) second (List.mem_mergeSort.1 two)
      (of_decide_eq_true ordered.1) ordered.2
  · have sorted := @pairwise_places_mergeSort nodes _ (fun one two => decide (two ≤ one)) place
      (fun first one second two => compared second two first one) (by grind) (by grind)
    refine (sorted.and ((List.mergeSort_perm _ _).nodup_iff.2 distinct)).imp_of_mem ?_
    intro first second one two ordered
    exact before second (List.mem_mergeSort.1 two) first (List.mem_mergeSort.1 one)
      (of_decide_eq_true ordered.1) ordered.2.symm

/-- On a forward axis each node stands before the later ones, on a reverse axis behind them. -/
theorem Axis.pairwise_navigate (linked : document.Linked) (axis : Axis) (id : NodeId) :
    (axis.navigate document id).Pairwise fun first second =>
      if axis.isReverse then document.Before second first else document.Before first second := by
  have under : (subtree document id).Sublist (document.treeOrder id) :=
    linked.subtree_sublist (Document.Linked.isInclusiveDescendantOf_top id)
  obtain ⟨parent, after, before⟩ := linked.siblings_sublist id
  cases axis with
  | child => exact Document.pairwise_before_of_children (.refl _)
  | descendant => exact linked.pairwise_descendants id
  | descendantOrSelf => exact linked.pairwise_before_of_sublist under
  | parent =>
      rw [navigate]
      cases document.parent? id with
      | none => exact .nil
      | some parent => exact List.pairwise_singleton _ _
  | ancestor => exact pairwise_of_lineage linked (List.sublist_cons_self id _)
  | ancestorOrSelf => exact pairwise_of_lineage linked (.refl _)
  | followingSibling => exact Document.pairwise_before_of_children after
  | precedingSibling => exact List.pairwise_reverse.1 (Document.pairwise_before_of_children before)
  | following =>
      exact (pairwise_before_mergeSort linked
        (nodup_flank linked (fun start => (pairwise_beside linked start).1) id) fun other member =>
          @top_of_mem_navigate document id other linked .following (List.mem_mergeSort.2 member)).1
  | preceding =>
      exact (pairwise_before_mergeSort linked
        (nodup_flank linked (fun start => (pairwise_beside linked start).2) id) fun other member =>
          @top_of_mem_navigate document id other linked .preceding (List.mem_mergeSort.2 member)).2
  | itself => exact List.pairwise_singleton _ _
  | «attribute» => exact .nil

/-- No axis lists a node twice. -/
theorem Axis.nodup_navigate (linked : document.Linked) (axis : Axis) (id : NodeId) :
    (axis.navigate document id).Nodup := by
  refine (axis.pairwise_navigate linked id).imp fun {first second} ordered same => ?_
  subst same
  exact linked.not_before_self first (by simpa using ordered)

end Order

section Partition

/-- The axes that divide a tree around a node. -/
def Axis.parts : List Axis := [.itself, .ancestor, .descendant, .following, .preceding]

/-- The nodes of a tree are divided between the parts. -/
theorem Axis.exists_part_iff (linked : document.Linked) :
    (∃ axis ∈ parts, other ∈ axis.navigate document id) ↔
      document.top other = document.top id := by
  constructor
  · rintro ⟨axis, -, member⟩
    exact top_of_mem_navigate linked member
  · intro same
    rcases linked.before_or_before same with rfl | (above | precedes) | (below | behind)
    · exact ⟨.itself, by simp [parts], List.mem_singleton_self _⟩
    · exact ⟨.ancestor, by simp [parts], above⟩
    · exact ⟨.preceding, by simp [parts], (mem_preceding linked).2 precedes⟩
    · exact ⟨.descendant, by simp [parts], linked.mem_descendants.2 below⟩
    · exact ⟨.following, by simp [parts], (mem_following linked).2 behind⟩

/-- No node is on two of the parts. -/
theorem Axis.disjoint_parts (linked : document.Linked) (id : NodeId) :
    parts.Pairwise fun first second =>
      (first.navigate document id).Disjoint (second.navigate document id) := by
  have above : ∀ {other}, other ∈ ancestor.navigate document id →
      ¬ document.Precedes id other ∧ ¬ document.Precedes other id := fun member =>
    linked.not_precedes_of_below (Document.isInclusiveDescendantOf_iff.2 (.inr member))
  have below : ∀ {other}, other ∈ descendant.navigate document id →
      ¬ document.Precedes other id ∧ ¬ document.Precedes id other := fun member =>
    linked.not_precedes_of_below
      (Document.isInclusiveDescendantOf_iff.2 (.inr (linked.mem_descendants.1 member)))
  have alone : ¬ document.Precedes id id :=
    (linked.not_precedes_of_below Document.isInclusiveDescendantOf_self).1
  have ahead : ∀ {other}, other ∈ following.navigate document id → document.Precedes id other :=
    (mem_following linked).1
  have behind : ∀ {other}, other ∈ preceding.navigate document id → document.Precedes other id :=
    (mem_preceding linked).1
  simp only [parts, List.pairwise_cons, List.forall_mem_cons, List.not_mem_nil, false_implies,
    implies_true, and_true, List.Pairwise.nil]
  refine ⟨⟨?_, ?_, ?_, ?_⟩, ⟨?_, ?_, ?_⟩, ⟨?_, ?_⟩, ?_⟩
  · exact List.singleton_disjoint.2 (linked.not_mem_ancestors_self id)
  · exact List.singleton_disjoint.2 (linked.not_mem_descendants_self id)
  · exact List.singleton_disjoint.2 fun member => alone (ahead member)
  · exact List.singleton_disjoint.2 fun member => alone (behind member)
  · intro other one two
    exact linked.not_mem_ancestors_self id
      (linked.ancestors_trans (linked.mem_descendants.1 two) one)
  · exact fun other one two => (above one).1 (ahead two)
  · exact fun other one two => (above one).2 (behind two)
  · exact fun other one two => (below one).2 (ahead two)
  · exact fun other one two => (below one).1 (behind two)
  · exact fun other one two => linked.not_before_of_before (.inr (ahead one)) (.inr (behind two))

/-- Around every node, the node itself, its ancestors, its descendants and the nodes after and before it
share the tree among them, each node once; and every axis has the document order or its reverse. -/
theorem Axis.navigate_partition (reachable : document.Reachable) (id : NodeId) :
    (parts.Pairwise fun first second =>
        (first.navigate document id).Disjoint (second.navigate document id)) ∧
      (∀ axis ∈ parts, (axis.navigate document id).Nodup) ∧
      (∀ other, (∃ axis ∈ parts, other ∈ axis.navigate document id) ↔
        document.top other = document.top id) ∧
      ∀ axis : Axis, (axis.navigate document id).Pairwise fun first second =>
        document.compareOrder first second = if axis.isReverse then .gt else .lt := by
  have linked := reachable.linked
  refine ⟨disjoint_parts linked id, fun axis _ => axis.nodup_navigate linked id,
    fun other => exists_part_iff linked, fun axis => ?_⟩
  refine (axis.pairwise_navigate linked id).imp fun ordered => ?_
  by_cases backwards : axis.isReverse = true
  · rw [if_pos backwards] at ordered ⊢
    exact (linked.compareOrder_of_before ordered).2
  · rw [if_neg backwards] at ordered ⊢
    exact (linked.compareOrder_of_before ordered).1

/-- The parts around a node whose younger sibling and the child of that stand before it. -/
theorem Axis.navigate_partition_of_moved : ∃ document : Document, document.Reachable ∧
    parts.map (Axis.navigate document 2) = [[2], [1, 0], [5], [6], [4, 3]] ∧
    (∀ other, (∃ axis ∈ parts, other ∈ axis.navigate document 2) ↔
      document.top other = document.top 2) ∧
    (preceding.navigate document 2).Pairwise fun first second =>
      document.compareOrder first second = .gt := by
  have ran : (Document.empty.run? [.createElement "a" [], .createElement "b" [],
      .createElement "c" [], .createText "d", .createText "e", .createText "f", .append 0 1,
      .append 1 3, .append 1 2, .append 3 4, .append 2 5, .append 1 6]).any (fun document =>
        document.ancestors 2 = [1, 0] ∧ document.descendants 2 = [5] ∧
        flank document document.followingSiblings 2 = [6] ∧
        flank document document.precedingSiblings 2 = [3, 4] ∧ document.compareOrder 4 3 = .gt) = true := by
    decide
  obtain ⟨document, reachable, above, below, behind, before, swapped⟩ := Document.exists_reachable ran
  have split : parts.map (Axis.navigate document 2) = [[2], [1, 0], [5], [6], [4, 3]] := by
    have sorted : Path.preceding document 2 = [4, 3] := by
      simp [Path.preceding, before, List.mergeSort, swapped, Ordering.isLE]
    simp [parts, navigate, above, below, sorted, Path.following, behind]
  obtain ⟨-, -, whole, ordered⟩ := navigate_partition reachable 2
  exact ⟨document, reachable, split, whole, ordered .preceding⟩

end Partition

end ElementQuery.Path

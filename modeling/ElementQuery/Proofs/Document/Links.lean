/-
This file says when the links of a document agree with each other, and follows them: the ancestors of
a node are the chain of its parents, and its siblings are the children around it.
-/

import ElementQuery.Document.Traversal
import Mathlib.Data.List.Nodup
import Mathlib.Order.WellFounded

namespace ElementQuery.Document

/-- A walk along a successor takes these nodes, one after the other, and then ends. -/
inductive Walk (next : NodeId → Option NodeId) : Option NodeId → List NodeId → Prop
  | finish : Walk next none []
  | step {id : NodeId} {rest : List NodeId} (later : Walk next (next id) rest) :
      Walk next (some id) (id :: rest)

/-- A chain with enough steps follows a walk to its end. -/
theorem Walk.chain_eq {next : NodeId → Option NodeId} {start : Option NodeId}
    {nodes : List NodeId} (walk : Walk next start nodes) {steps : Nat}
    (enough : nodes.length ≤ steps) : chain next steps start = nodes := by
  induction walk generalizing steps with
  | finish => exact chain_none
  | step later inductionHypothesis =>
      cases steps with
      | zero => simp at enough
      | succ steps =>
          rw [chain_some, inductionHypothesis (Nat.le_of_succ_le_succ enough)]

/-- The links of a document agree: children and parents name each other, the neighbours among the
children of a parent are linked in both directions, and every chain of parents ends. -/
structure Linked (document : Document) : Prop where
  childIff : ∀ {parent child : NodeId},
    child ∈ document.children parent ↔ document.parent? child = some parent
  distinct : ∀ parent : NodeId, (document.children parent).Nodup
  neighbours : ∀ {parent child : NodeId} {before after : List NodeId},
    document.children parent = before ++ child :: after →
      document.previous? child = before.getLast? ∧ document.next? child = after.head?
  alone : ∀ {id : NodeId}, document.parent? id = none →
    document.previous? id = none ∧ document.next? id = none
  grounded : WellFounded fun parent child : NodeId => document.parent? child = some parent

theorem node?_isSome_iff {document : Document} {id : NodeId} :
    (document.node? id).isSome = true ↔ id < document.size := by
  simp [node?, size]

theorem lt_size_of_parent? {document : Document} {id parent : NodeId}
    (owned : document.parent? id = some parent) : id < document.size := by
  obtain ⟨node, found, -⟩ := Option.bind_eq_some_iff.1 owned
  exact node?_isSome_iff.1 (by simp [found])

theorem lt_size_of_mem_children {document : Document} {parent child : NodeId}
    (member : child ∈ document.children parent) : parent < document.size := by
  cases found : document.node? parent with
  | none => simp [children, found] at member
  | some node => exact node?_isSome_iff.1 (by simp [found])

theorem lt_size_of_content? {document : Document} {id : NodeId} {content : Content}
    (held : document.content? id = some content) : id < document.size := by
  obtain ⟨node, found, -⟩ := Option.map_eq_some_iff.1 held
  exact node?_isSome_iff.1 (by simp [found])

theorem mem_ids_of_content? {document : Document} {id : NodeId} {content : Content}
    (held : document.content? id = some content) : id ∈ document.ids :=
  List.mem_range.2 (lt_size_of_content? held)

/-- Different nodes of a document are at most as many as its table has places. -/
theorem length_le_size {document : Document} {nodes : List NodeId} (distinct : nodes.Nodup)
    (inside : ∀ id ∈ nodes, id < document.size) : nodes.length ≤ document.size := by
  have subset : nodes ⊆ document.ids := fun id member => List.mem_range.2 (inside id member)
  simpa [ids] using distinct.length_le_of_subset subset

theorem isInclusiveDescendantOf_iff {document : Document} {id top : NodeId} :
    document.isInclusiveDescendantOf id top = true ↔
      id = top ∨ top ∈ document.ancestors id := by
  simp [isInclusiveDescendantOf, isDescendantOf]

namespace Linked

variable {document : Document} {parent child id : NodeId}

theorem parent_lt_size (linked : document.Linked) (owned : document.parent? child = some parent) :
    parent < document.size :=
  lt_size_of_mem_children (linked.childIff.2 owned)

/-- The parents of a node form a walk of different nodes that never comes back. -/
theorem exists_walk (linked : document.Linked) (id : NodeId) :
    ∃ nodes, Walk document.parent? (document.parent? id) nodes ∧ (id :: nodes).Nodup ∧
      (∀ ancestor ∈ nodes, ancestor < document.size) ∧ ∀ ancestor ∈ nodes, Relation.TransGen
        (fun parent child : NodeId => document.parent? child = some parent) ancestor id := by
  induction id using linked.grounded.induction with
  | _ id inductionHypothesis =>
      cases owned : document.parent? id with
      | none => exact ⟨[], .finish, by simp⟩
      | some parent =>
          obtain ⟨nodes, walk, distinct, inside, above⟩ := inductionHypothesis parent owned
          have reaches : ∀ ancestor ∈ parent :: nodes, Relation.TransGen
              (fun parent child : NodeId => document.parent? child = some parent) ancestor id := by
            intro ancestor member
            rcases List.mem_cons.1 member with rfl | further
            · exact .single owned
            · exact .tail (above ancestor further) owned
          refine ⟨parent :: nodes, .step walk, ?_, ?_, reaches⟩
          · refine List.nodup_cons.2 ⟨fun member => ?_, distinct⟩
            exact linked.grounded.transGen.irrefl.irrefl id (reaches id member)
          · intro ancestor member
            rcases List.mem_cons.1 member with rfl | further
            · exact linked.parent_lt_size owned
            · exact inside ancestor further

/-- The walk through the parents of a node ends, and its nodes are the ancestors. -/
theorem ancestors_walk (linked : document.Linked) (id : NodeId) :
    Walk document.parent? (document.parent? id) (document.ancestors id) := by
  obtain ⟨nodes, walk, distinct, inside, -⟩ := linked.exists_walk id
  have enough := length_le_size (List.nodup_cons.1 distinct).2 inside
  rwa [ancestors, walk.chain_eq enough]

/-- A node is not among its own ancestors, and none of these comes twice. -/
theorem nodup_lineage (linked : document.Linked) (id : NodeId) :
    (id :: document.ancestors id).Nodup := by
  obtain ⟨nodes, walk, distinct, inside, -⟩ := linked.exists_walk id
  have enough := length_le_size (List.nodup_cons.1 distinct).2 inside
  rwa [ancestors, walk.chain_eq enough]

theorem not_mem_ancestors_self (linked : document.Linked) (id : NodeId) :
    id ∉ document.ancestors id :=
  (List.nodup_cons.1 (linked.nodup_lineage id)).1

theorem ancestors_of_parent?_eq_none (orphan : document.parent? id = none) :
    document.ancestors id = [] := by
  rw [ancestors, orphan, chain_none]

/-- The ancestors of a node are its parent and the ancestors of that. -/
theorem ancestors_of_parent? (linked : document.Linked) (owned : document.parent? id = some parent) :
    document.ancestors id = parent :: document.ancestors parent := by
  have walk := linked.ancestors_walk id
  rw [owned] at walk
  cases shape : document.ancestors id with
  | nil => rw [shape] at walk; nomatch walk
  | cons first rest =>
      rw [shape] at walk
      obtain ⟨_⟩ | ⟨later⟩ := walk
      have enough : rest.length ≤ document.size := by
        have bounded := @length_chain document.parent? document.size (document.parent? id)
        rw [← ancestors, shape] at bounded
        exact Nat.le_of_succ_le bounded
      rw [ancestors, later.chain_eq enough]

theorem mem_ancestors (linked : document.Linked) {ancestor : NodeId} :
    ancestor ∈ document.ancestors id ↔ ∃ parent, document.parent? id = some parent ∧
      (ancestor = parent ∨ ancestor ∈ document.ancestors parent) := by
  cases owned : document.parent? id with
  | none => simp [ancestors_of_parent?_eq_none owned]
  | some parent => simp [linked.ancestors_of_parent? owned]

theorem lt_size_of_mem_ancestors (linked : document.Linked) {ancestor : NodeId}
    (member : ancestor ∈ document.ancestors id) : ancestor < document.size := by
  obtain ⟨nodes, walk, distinct, inside, -⟩ := linked.exists_walk id
  have enough := length_le_size (List.nodup_cons.1 distinct).2 inside
  rw [ancestors, walk.chain_eq enough] at member
  exact inside ancestor member

/-- A node has fewer ancestors than the table has places. -/
theorem length_ancestors_lt (linked : document.Linked) (inside : id < document.size) :
    (document.ancestors id).length < document.size := by
  apply length_le_size (linked.nodup_lineage id)
  intro node member
  rcases List.mem_cons.1 member with rfl | above
  · exact inside
  · exact linked.lt_size_of_mem_ancestors above

/-- The children of a node are in the table. -/
theorem child_lt_size (linked : document.Linked) (member : child ∈ document.children parent) :
    child < document.size :=
  lt_size_of_parent? (linked.childIff.1 member)

/-- A node has at most as many children as the table has places. -/
theorem length_children_le (linked : document.Linked) (parent : NodeId) :
    (document.children parent).length ≤ document.size :=
  length_le_size (linked.distinct parent) fun _ member => linked.child_lt_size member

/-- What a parent is or hangs below, its child hangs below. -/
theorem isInclusiveDescendantOf_of_parent? {top : NodeId} (linked : document.Linked)
    (owned : document.parent? child = some parent)
    (below : document.isInclusiveDescendantOf parent top = true) :
    document.isInclusiveDescendantOf child top = true := by
  rw [isInclusiveDescendantOf_iff] at below ⊢
  rw [linked.ancestors_of_parent? owned, List.mem_cons]
  grind

/-- The children of a parent before and after one of them. -/
theorem exists_place (linked : document.Linked) (owned : document.parent? child = some parent) :
    ∃ before after, document.children parent = before ++ child :: after :=
  List.append_of_mem (linked.childIff.2 owned)

/-- The sibling before a node has the same parent. -/
theorem parent?_of_previous? (linked : document.Linked)
    (beside : document.previous? child = some id) :
    document.parent? id = document.parent? child := by
  cases owned : document.parent? child with
  | none => simp [(linked.alone owned).1] at beside
  | some parent =>
      obtain ⟨before, after, place⟩ := linked.exists_place owned
      rw [(linked.neighbours place).1] at beside
      exact linked.childIff.1 (by simp [place, List.mem_of_getLast? beside])

/-- The sibling after a node has the same parent. -/
theorem parent?_of_next? (linked : document.Linked) (beside : document.next? child = some id) :
    document.parent? id = document.parent? child := by
  cases owned : document.parent? child with
  | none => simp [(linked.alone owned).2] at beside
  | some parent =>
      obtain ⟨before, after, place⟩ := linked.exists_place owned
      rw [(linked.neighbours place).2] at beside
      exact linked.childIff.1 (by simp [place, List.mem_of_head? beside])

/-- The siblings after a node are the children behind it. -/
theorem followingSiblings_eq (linked : document.Linked) {before after : List NodeId}
    (place : document.children parent = before ++ child :: after) :
    document.followingSiblings child = after := by
  have walk : ∀ before after : List NodeId, document.children parent = before ++ after →
      Walk document.next? after.head? after := by
    intro before after
    induction after generalizing before with
    | nil => exact fun _ => .finish
    | cons first rest inductionHypothesis =>
        intro place
        refine .step ?_
        rw [(linked.neighbours place).2]
        exact inductionHypothesis (before ++ [first]) (by simp [place])
  have inside : ∀ id ∈ after, id < document.size := by
    intro id member
    have among : id ∈ document.children parent := by simp [place, member]
    exact linked.child_lt_size among
  have distinct : after.Nodup := by
    have all := linked.distinct parent
    rw [place] at all
    exact (List.nodup_cons.1 (List.nodup_append.1 all).2.1).2
  rw [followingSiblings, (linked.neighbours place).2]
  exact (walk (before ++ [child]) after (by simp [place])).chain_eq
    (length_le_size distinct inside)

/-- The siblings before a node are the children in front of it, the nearest first. -/
theorem precedingSiblings_eq (linked : document.Linked) {before after : List NodeId}
    (place : document.children parent = before ++ child :: after) :
    document.precedingSiblings child = before.reverse := by
  have walk : ∀ before after : List NodeId, document.children parent = before.reverse ++ after →
      Walk document.previous? before.head? before := by
    intro before
    induction before with
    | nil => exact fun _ _ => .finish
    | cons last front inductionHypothesis =>
        intro after place
        rw [List.reverse_cons, List.append_assoc] at place
        refine .step ?_
        rw [(linked.neighbours place).1, List.getLast?_reverse]
        exact inductionHypothesis (last :: after) place
  have inside : ∀ id ∈ before.reverse, id < document.size := by
    intro id member
    have among : id ∈ document.children parent := by simp [place, List.mem_reverse.1 member]
    exact linked.child_lt_size among
  have distinct : before.reverse.Nodup := by
    have all := linked.distinct parent
    rw [place] at all
    exact List.nodup_reverse.2 (List.nodup_append.1 all).1
  rw [precedingSiblings, (linked.neighbours place).1, ← List.head?_reverse]
  exact (walk before.reverse (child :: after) (by simp [place])).chain_eq
    (length_le_size distinct inside)

/-- A node without a parent has no siblings. -/
theorem siblings_of_parent?_eq_none (linked : document.Linked)
    (orphan : document.parent? id = none) :
    document.followingSiblings id = [] ∧ document.precedingSiblings id = [] := by
  rw [followingSiblings, precedingSiblings, (linked.alone orphan).1, (linked.alone orphan).2]
  exact ⟨chain_none, chain_none⟩

/-- A sibling of a node has the same parent. -/
theorem parent?_of_mem_siblings (linked : document.Linked) {other : NodeId}
    (member : other ∈ document.followingSiblings id ∨ other ∈ document.precedingSiblings id) :
    ∃ parent, document.parent? id = some parent ∧ document.parent? other = some parent := by
  cases owned : document.parent? id with
  | none =>
      rw [(linked.siblings_of_parent?_eq_none owned).1,
        (linked.siblings_of_parent?_eq_none owned).2] at member
      simp at member
  | some parent =>
      obtain ⟨before, after, place⟩ := linked.exists_place owned
      rw [linked.followingSiblings_eq place, linked.precedingSiblings_eq place,
        List.mem_reverse] at member
      have child : other ∈ document.children parent := by
        rw [place]
        rcases member with behind | front
        · simp [behind]
        · simp [front]
      exact ⟨parent, rfl, linked.childIff.1 child⟩

/-- The siblings after a node stand behind it in the row of one parent. -/
theorem followingSiblings_eq_iff (linked : document.Linked) {other : NodeId}
    {between after : List NodeId} :
    document.followingSiblings other = between ++ id :: after ↔ ∃ parent before,
      document.children parent = before ++ other :: (between ++ id :: after) := by
  constructor
  · intro siblings
    obtain ⟨parent, owned, -⟩ := linked.parent?_of_mem_siblings
      (.inl (by simp [siblings] : id ∈ document.followingSiblings other))
    obtain ⟨before, behind, place⟩ := linked.exists_place owned
    rw [linked.followingSiblings_eq place] at siblings
    exact ⟨parent, before, siblings ▸ place⟩
  · intro given
    obtain ⟨parent, before, place⟩ := given
    exact linked.followingSiblings_eq place

/-- The siblings before a node stand in front of it in the row of one parent. -/
theorem precedingSiblings_eq_iff (linked : document.Linked) {other : NodeId}
    {between before : List NodeId} :
    document.precedingSiblings id = between ++ other :: before ↔ ∃ parent after,
      document.children parent = before.reverse ++ other :: (between.reverse ++ id :: after) := by
  constructor
  · intro siblings
    obtain ⟨parent, owned, -⟩ := linked.parent?_of_mem_siblings
      (.inr (by simp [siblings] : other ∈ document.precedingSiblings id))
    obtain ⟨front, after, place⟩ := linked.exists_place owned
    rw [linked.precedingSiblings_eq place, List.reverse_eq_iff] at siblings
    refine ⟨parent, after, ?_⟩
    rw [place, siblings]
    simp
  · intro given
    obtain ⟨parent, after, place⟩ := given
    have shifted : document.children parent =
        (before.reverse ++ other :: between.reverse) ++ id :: after := by simp [place]
    rw [linked.precedingSiblings_eq shifted]
    simp

end Linked

end ElementQuery.Document

/-
This file says what comparing two nodes tells: within a tree it agrees with the places in the order of the tree, and
across trees with the age of the nodes. The two rules together are no order: three nodes of two trees can go round in
a circle, and the file shows which ones do.
-/

import ElementQuery.Proofs.Document.Branches
import ElementQuery.Proofs.Document.Reachable

namespace ElementQuery.Document

variable {document : Document} {first second third node : NodeId}

/-- In a row without repetitions a member stands at its place and nowhere else. -/
theorem getElem?_eq_some_iff_eq_idxOf {nodes : List NodeId} {id : NodeId} {index : Nat}
    (distinct : nodes.Nodup) (member : id ∈ nodes) : nodes[index]? = some id ↔ index = nodes.idxOf id := by
  constructor
  · intro found
    obtain ⟨inside, shape⟩ := List.getElem?_eq_some_iff.1 found
    rw [← shape, distinct.idxOf_getElem]
  · rintro rfl
    exact List.getElem?_idxOf member

/-- The path to a node begins with the topmost node of its tree. -/
theorem head?_pathFromTop (document : Document) (id : NodeId) :
    (document.pathFromTop id).head? = some (document.top id) := by
  rw [pathFromTop, List.head?_append, List.head?_reverse, top]
  cases (document.ancestors id).getLast? <;> rfl

/-- Nodes of different trees compare by age. -/
theorem compareOrder_of_top_ne (apart : document.top first ≠ document.top second) :
    document.compareOrder first second = compare first second := by
  have different : first ≠ second := fun same => apart (congrArg document.top same)
  have parted : ∀ id ∈ (document.pathFromTop first).head?,
      id ∉ (document.pathFromTop second).head? := by
    intro id leads
    rw [head?_pathFromTop] at leads ⊢
    rw [← Option.mem_some_iff.1 leads]
    exact fun same => apart (Option.mem_some_iff.1 same).symm
  rw [compareOrder, if_neg different]
  exact if_pos (sharedLength_append [] parted)

/-- A node of one tree was made between two nodes of another tree, which stand there against their age. -/
structure Wedged (document : Document) (first second wedge : NodeId) : Prop where
  before : document.Before first second
  apart : document.top wedge ≠ document.top first
  older : second < wedge
  younger : wedge < first

namespace Linked

section Places

variable (linked : document.Linked)

include linked

/-- Nodes of one tree compare by their places in its order. -/
theorem compareOrder_eq_compare_idxOf (one : document.top first = document.top node)
    (two : document.top second = document.top node) :
    document.compareOrder first second =
      compare ((document.treeOrder node).idxOf first) ((document.treeOrder node).idxOf second) :=
  linked.compareOrder_eq_compare (linked.mem_subtree.1 (linked.mem_treeOrder.2 one))
    (linked.mem_subtree.1 (linked.mem_treeOrder.2 two))

theorem compareOrder_eq_eq_iff : document.compareOrder first second = .eq ↔ first = second := by
  by_cases same : document.top first = document.top second
  · rw [linked.compareOrder_eq_compare_idxOf same rfl, Nat.compare_eq_eq]
    exact List.idxOf_inj (linked.mem_treeOrder.2 same)
  · rw [compareOrder_of_top_ne same, Nat.compare_eq_eq]

theorem compareOrder_swap :
    document.compareOrder second first = (document.compareOrder first second).swap := by
  by_cases same : document.top first = document.top second
  · rw [linked.compareOrder_eq_compare_idxOf same rfl, linked.compareOrder_eq_compare_idxOf rfl same, Nat.compare_swap]
  · rw [compareOrder_of_top_ne same, compareOrder_of_top_ne (Ne.symm same), Nat.compare_swap]

end Places

section Circles

/-- Nodes one of which stands before the other belong to one tree. -/
theorem top_of_before (linked : document.Linked) (before : document.Before first second) :
    document.top second = document.top first :=
  linked.mem_treeOrder.1 ((linked.pair_sublist_of_before before).subset (by simp))

/-- Of two nodes of one tree, the one with the smaller place in its order stands before the other. -/
theorem before_iff_idxOf_lt (linked : document.Linked) (one : document.top first = document.top node)
    (two : document.top second = document.top node) :
    document.Before first second ↔
      (document.treeOrder node).idxOf first < (document.treeOrder node).idxOf second := by
  rw [← linked.compareOrder_eq_lt_iff (one.trans two.symm), linked.compareOrder_eq_compare_idxOf one two,
    Nat.compare_eq_lt]

theorem before_trans (linked : document.Linked) (one : document.Before first second)
    (two : document.Before second third) : document.Before first third := by
  have joined := linked.top_of_before one
  have united := (linked.top_of_before two).trans joined
  rw [linked.before_iff_idxOf_lt rfl joined] at one
  rw [linked.before_iff_idxOf_lt joined united] at two
  exact (linked.before_iff_idxOf_lt rfl united).2 (one.trans two)

/-- A node compares less than another when it stands before it in its tree, and when it is older than a node of
another tree. -/
theorem compareOrder_eq_lt_iff_or (linked : document.Linked) :
    document.compareOrder first second = .lt ↔ document.Before first second ∨
      document.top first ≠ document.top second ∧ first < second := by
  by_cases same : document.top first = document.top second
  · rw [linked.compareOrder_eq_lt_iff same]
    simp [same]
  · rw [compareOrder_of_top_ne same, Nat.compare_eq_lt]
    have apart : ¬ document.Before first second := fun before => same (linked.top_of_before before).symm
    simp [same, apart]

/-- Three nodes that are wedged compare less one after the other, round in a circle. -/
theorem circle_of_wedged (linked : document.Linked) (wedged : document.Wedged first second third) :
    document.compareOrder first second = .lt ∧ document.compareOrder second third = .lt ∧
      document.compareOrder third first = .lt := by
  have joined := linked.top_of_before wedged.before
  refine ⟨linked.compareOrder_eq_lt_iff_or.2 (.inl wedged.before), ?_, ?_⟩
  · exact linked.compareOrder_eq_lt_iff_or.2 (.inr ⟨joined ▸ wedged.apart.symm, wedged.older⟩)
  · exact linked.compareOrder_eq_lt_iff_or.2 (.inr ⟨wedged.apart, wedged.younger⟩)

/-- Of three nodes that compare less one after the other, the first compares less than the last unless they are
wedged. The cases are which two of them belong to one tree. -/
theorem compareOrder_trans_or_wedged (linked : document.Linked)
    (one : document.compareOrder first second = .lt) (two : document.compareOrder second third = .lt) :
    document.compareOrder first third = .lt ∨ document.Wedged first second third ∨
      document.Wedged second third first ∨ document.Wedged third first second := by
  rw [linked.compareOrder_eq_lt_iff_or] at one two ⊢
  rcases one with one | ⟨apart, older⟩ <;> rcases two with two | ⟨further, younger⟩
  -- all three belong to one tree
  · exact .inl (.inl (linked.before_trans one two))
  -- the third is the one apart
  · have joined := linked.top_of_before one
    have parted : document.top first ≠ document.top third := joined ▸ further
    rcases Nat.lt_or_gt_of_ne (fun same => parted (congrArg document.top same)) with earlier | later
    · exact .inl (.inr ⟨parted, earlier⟩)
    · exact .inr (.inl ⟨one, parted.symm, younger, later⟩)
  -- the first is the one apart
  · have joined := linked.top_of_before two
    have parted : document.top first ≠ document.top third := joined ▸ apart
    rcases Nat.lt_or_gt_of_ne (fun same => parted (congrArg document.top same)) with earlier | later
    · exact .inl (.inr ⟨parted, earlier⟩)
    · exact .inr (.inr (.inl ⟨two, apart, later, older⟩))
  -- the second is apart from the two others, which may share a tree
  · by_cases same : document.top first = document.top third
    · have different : first ≠ third := Nat.ne_of_lt (older.trans younger)
      rcases (linked.before_or_before same).resolve_left different with before | back
      · exact .inl (.inl before)
      · exact .inr (.inr (.inr ⟨back, further, older, younger⟩))
    · exact .inl (.inr ⟨same, older.trans younger⟩)

end Circles

end Linked

/-- Two nodes of a tree have one place each in the order of the tree, whichever of its nodes the tree is named by, and
compare as these places do. -/
theorem Reachable.compareOrder_eq_compare_places (reachable : document.Reachable)
    (one : document.top first = document.top node) (two : document.top second = document.top node) :
    ∃ place spot : Nat, (∀ index, (document.treeOrder node)[index]? = some first ↔ index = place) ∧
      (∀ index, (document.treeOrder node)[index]? = some second ↔ index = spot) ∧
      document.compareOrder first second = compare place spot := by
  have linked := reachable.linked
  have distinct := linked.nodup_treeOrder node
  exact ⟨(document.treeOrder node).idxOf first, (document.treeOrder node).idxOf second,
    fun _ => getElem?_eq_some_iff_eq_idxOf distinct (linked.mem_treeOrder.2 one),
    fun _ => getElem?_eq_some_iff_eq_idxOf distinct (linked.mem_treeOrder.2 two),
    linked.compareOrder_eq_compare_idxOf one two⟩

/-- In a tree apart from the document node, a child stands before the child of an older sibling. -/
theorem compareOrder_eq_compare_places_of_apart : ∃ document : Document, document.Reachable ∧
    document.top 5 = document.top 3 ∧ document.top 4 = document.top 3 ∧
    document.treeOrder 3 = [2, 5, 3, 4] ∧ document.compareOrder 5 4 = compare 1 3 := by
  have ran : (empty.run? [.createElement "a" [], .createElement "b" [], .createElement "c" [],
      .createText "d", .createElement "e" [], .append 0 1, .append 2 3, .append 3 4, .append 2 5,
      .append 2 3]).any (fun document =>
        (document.top 5 = document.top 3 ∧ document.top 4 = document.top 3) ∧
          document.treeOrder 3 = [2, 5, 3, 4]) = true := by
    decide
  obtain ⟨document, reachable, ⟨one, two⟩, order⟩ := exists_reachable ran
  obtain ⟨place, spot, stands, lies, compared⟩ := reachable.compareOrder_eq_compare_places one two
  rw [order] at stands lies
  rw [← (stands 1).1 rfl, ← (lies 3).1 rfl] at compared
  exact ⟨document, reachable, one, two, order, compared⟩

/-- On every document that edits lead to, only equal nodes compare equal, comparing in reverse reverses the answer, and
comparing less is passed on from two pairs to the third, except exactly when two of the three nodes stand in a tree
against their age and the third, from another tree, was made between them. -/
theorem Reachable.compareOrder_laws (reachable : document.Reachable) :
    (∀ first second, document.compareOrder first second = .eq ↔ first = second) ∧
      (∀ first second, document.compareOrder second first = (document.compareOrder first second).swap) ∧
      ∀ first second third, document.compareOrder first second = .lt → document.compareOrder second third = .lt →
        (document.compareOrder first third = .lt ↔ ¬ (document.Wedged first second third ∨
          document.Wedged second third first ∨ document.Wedged third first second)) := by
  have linked := reachable.linked
  refine ⟨fun _ _ => linked.compareOrder_eq_eq_iff, fun _ _ => linked.compareOrder_swap,
    fun first second third one two => ⟨fun less wedged => ?_, fun free => ?_⟩⟩
  · have circle : document.compareOrder third first = .lt := by
      rcases wedged with wedged | wedged | wedged
      · exact (linked.circle_of_wedged wedged).2.2
      · exact (linked.circle_of_wedged wedged).2.1
      · exact (linked.circle_of_wedged wedged).1
    rw [linked.compareOrder_swap, less] at circle
    cases circle
  · exact (linked.compareOrder_trans_or_wedged one two).resolve_right free

/-- The parent that is younger than its child compares less than a node that is younger than both, but not less than
one that is younger than the child only. -/
theorem compareOrder_laws_of_younger : ∃ document : Document, document.Reachable ∧
    document.compareOrder 3 1 = .lt ∧ document.compareOrder 1 4 = .lt ∧ document.compareOrder 3 4 = .lt ∧
    document.compareOrder 1 2 = .lt ∧ document.Wedged 3 1 2 ∧ document.compareOrder 3 2 ≠ .lt := by
  have ran : (empty.run? [.createElement "a" [], .createElement "b" [], .createElement "c" [],
      .createElement "d" [], .append 3 1]).any (fun document =>
        (3 ∈ document.ancestors 1 ∧ document.top 2 ≠ document.top 3) ∧ document.compareOrder 3 1 = .lt ∧
          document.compareOrder 1 4 = .lt ∧ document.compareOrder 1 2 = .lt) = true := by
    decide
  obtain ⟨document, reachable, ⟨above, apart⟩, less, later, between⟩ := exists_reachable ran
  have wedged : document.Wedged 3 1 2 := ⟨.inl above, apart, by decide, by decide⟩
  obtain ⟨-, -, passed⟩ := reachable.compareOrder_laws
  refine ⟨document, reachable, less, later, (passed 3 1 4 less later).2 ?_, between, wedged,
    fun passes => (passed 3 1 2 less between).1 passes (.inl wedged)⟩
  rintro (wedge | wedge | wedge)
  · exact absurd wedge.younger (by decide)
  · exact absurd wedge.younger (by decide)
  · exact absurd wedge.older (by decide)

/-- A parent compares less than its older child, the child less than a node apart that was made between the two, and
this node less than the parent. -/
theorem compareOrder_circle : ∃ document : Document,
    empty.run? [.createElement "a" [], .createElement "b" [], .createElement "c" [], .append 3 1] =
      some document ∧ document.Reachable ∧ document.size = 4 ∧ document.compareOrder 3 1 = .lt ∧
    document.compareOrder 1 2 = .lt ∧ document.compareOrder 3 2 = .gt ∧ document.compareOrder 2 3 = .lt := by
  have ran : (empty.run? [.createElement "a" [], .createElement "b" [], .createElement "c" [],
      .append 3 1]).any (fun document => document.size = 4 ∧ document.compareOrder 3 1 = .lt ∧
        document.compareOrder 1 2 = .lt ∧ document.compareOrder 3 2 = .gt ∧
          document.compareOrder 2 3 = .lt) = true := by
    decide
  obtain ⟨document, reached, shape⟩ := (Option.any_eq_true _ _).1 ran
  exact ⟨document, reached, Reachable.empty.run reached, of_decide_eq_true shape⟩

end ElementQuery.Document

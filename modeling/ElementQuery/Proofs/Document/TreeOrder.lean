/-
This file shows that comparing the paths of two nodes of one tree tells which of them the walk through
that tree takes first.
-/

import ElementQuery.Document.Order
import ElementQuery.Proofs.Document.Preorder
import Mathlib.Data.List.Flatten

namespace ElementQuery.Document

/-- Two paths run together and then part or end. -/
theorem exists_fork (path other : List NodeId) :
    ∃ common rest more, path = common ++ rest ∧ other = common ++ more ∧
      ∀ id ∈ rest.head?, id ∉ more.head? := by
  induction path generalizing other with
  | nil => exact ⟨[], [], other, rfl, rfl, by simp⟩
  | cons first path inductionHypothesis =>
      cases other with
      | nil => exact ⟨[], first :: path, [], rfl, rfl, by simp⟩
      | cons second other =>
          by_cases same : first = second
          · subst same
            obtain ⟨common, rest, more, rfl, rfl, parted⟩ := inductionHypothesis other
            exact ⟨first :: common, rest, more, rfl, rfl, parted⟩
          · refine ⟨[], first :: path, second :: other, rfl, rfl, ?_⟩
            rintro id ⟨⟩ ⟨⟩
            exact same rfl

/-- Paths that part or end behind a common beginning share no more than that. -/
theorem sharedLength_append (common : List NodeId) {rest more : List NodeId}
    (parted : ∀ id ∈ rest.head?, id ∉ more.head?) :
    sharedLength (common ++ rest) (common ++ more) = common.length := by
  induction common with
  | nil =>
      cases rest with
      | nil => rfl
      | cons first rest =>
          cases more with
          | nil => rfl
          | cons second more =>
              have different : first ≠ second := fun same => parted first rfl (congrArg some same.symm)
              exact if_neg different
  | cons first common inductionHypothesis =>
      rw [List.cons_append, List.cons_append, sharedLength, if_pos rfl, inductionHypothesis,
        List.length_cons]

theorem pair_sublist_of_places {nodes : List NodeId} {first second : NodeId} {place spot : Nat}
    (found : nodes.idxOf? first = some place) (located : nodes.idxOf? second = some spot)
    (earlier : place < spot) : [first, second].Sublist nodes := by
  obtain ⟨inside, shape, -⟩ := List.idxOf?_eq_some_iff.1 found
  obtain ⟨within, form, -⟩ := List.idxOf?_eq_some_iff.1 located
  have later : second ∈ nodes.drop (place + 1) := by
    rw [List.mem_drop_iff_getElem]
    exact ⟨spot - (place + 1), by omega, by simpa [Nat.add_sub_cancel' earlier] using form⟩
  have front : first ∈ nodes.take (place + 1) := by
    rw [List.mem_take_iff_getElem]
    exact ⟨place, by omega, by simpa using shape⟩
  rw [← List.take_append_drop (place + 1) nodes]
  exact (List.singleton_sublist.2 front).append (List.singleton_sublist.2 later)

/-- In a row without repetitions, what stands before another has the smaller place. -/
theorem idxOf_lt_of_pair_sublist {nodes : List NodeId} {first second : NodeId}
    (distinct : nodes.Nodup) (before : [first, second].Sublist nodes) :
    nodes.idxOf first < nodes.idxOf second := by
  obtain ⟨front, back, rfl, leading, later⟩ := List.cons_sublist_iff.1 before
  have behind : second ∈ back := List.singleton_sublist.1 later
  have apart : second ∉ front := fun member =>
    (List.nodup_append.1 distinct).2.2 second member second behind rfl
  rw [List.idxOf_append_of_mem leading, List.idxOf_append_of_notMem apart]
  exact Nat.lt_add_right _ (List.idxOf_lt_length_of_mem leading)

/-- Of the nodes in a row with a property, the one with the least place is found first. -/
theorem find?_eq_some_of_idxOf_le {nodes : List NodeId} {property : NodeId → Bool} {id : NodeId}
    (inside : id ∈ nodes) (holds : property id = true)
    (least : ∀ other ∈ nodes, property other = true → nodes.idxOf id ≤ nodes.idxOf other) :
    nodes.find? property = some id := by
  obtain ⟨front, back, rfl, fresh⟩ := List.eq_append_cons_of_mem inside
  refine List.find?_eq_some_iff_append.2 ⟨holds, front, back, rfl, fun other member => ?_⟩
  rw [Bool.not_eq_true', ← Bool.not_eq_true]
  intro held
  have bound := least other (List.mem_append_left _ member) held
  rw [List.idxOf_append_of_notMem fresh, List.idxOf_append_of_mem member,
    List.idxOf_cons_self] at bound
  exact absurd (List.idxOf_lt_length_of_mem member) (Nat.not_lt.2 bound)

/-- Two nodes of a row compare as they stand in it. -/
theorem comparePlaces_spec {nodes : List NodeId} {first second : NodeId} (left : first ∈ nodes)
    (right : second ∈ nodes) :
    match comparePlaces (nodes.idxOf? first) (nodes.idxOf? second) with
    | .lt => [first, second].Sublist nodes
    | .eq => first = second
    | .gt => [second, first].Sublist nodes := by
  obtain ⟨place, found⟩ := Option.isSome_iff_exists.1 (List.isSome_idxOf?.2 left)
  obtain ⟨spot, located⟩ := Option.isSome_iff_exists.1 (List.isSome_idxOf?.2 right)
  rw [found, located, comparePlaces]
  rcases Nat.lt_trichotomy place spot with earlier | rfl | later
  · rw [Nat.compare_eq_lt.2 earlier]
    exact pair_sublist_of_places found located earlier
  · rw [Nat.compare_eq_eq.2 rfl]
    obtain ⟨_, shape, -⟩ := List.idxOf?_eq_some_iff.1 found
    obtain ⟨_, form, -⟩ := List.idxOf?_eq_some_iff.1 located
    simp_all
  · rw [Nat.compare_eq_gt.2 later]
    exact pair_sublist_of_places located found later

/-- When nodes compare by their places, the earliest of them has the least place. -/
theorem earliest?_eq_some {document : Document} {place : NodeId → Nat} {first : NodeId}
    {rest : List NodeId}
    (agree : ∀ best ∈ first :: rest, ∀ other ∈ first :: rest,
      document.compareOrder best other = compare (place best) (place other)) :
    ∃ best ∈ first :: rest, document.earliest? (first :: rest) = some best ∧
      ∀ other ∈ first :: rest, place best ≤ place other := by
  rw [earliest?]
  induction rest generalizing first with
  | nil => exact ⟨first, by simp⟩
  | cons next rest inductionHypothesis =>
      rw [List.foldl_cons]
      have step := agree first (by simp) next (by simp)
      by_cases later : document.compareOrder first next = .gt
      · rw [if_pos later]
        rw [step, Nat.compare_eq_gt] at later
        obtain ⟨best, member, shape, least⟩ := inductionHypothesis fun one left two right =>
          agree one (List.mem_cons_of_mem _ left) two (List.mem_cons_of_mem _ right)
        refine ⟨best, List.mem_cons_of_mem _ member, shape, ?_⟩
        have bound := least next (by simp)
        grind
      · rw [if_neg later]
        rw [step, Nat.compare_eq_gt] at later
        have among : ∀ one ∈ first :: rest, one ∈ first :: next :: rest := by grind
        obtain ⟨best, member, shape, least⟩ := inductionHypothesis fun one left two right =>
          agree one (among one left) two (among two right)
        refine ⟨best, by grind, shape, ?_⟩
        have bound := least first (by simp)
        grind

namespace Linked

variable {document : Document} {top parent child id first second : NodeId}

theorem pathFromTop_of_parent? (linked : document.Linked)
    (owned : document.parent? id = some parent) :
    document.pathFromTop id = document.pathFromTop parent ++ [id] := by
  simp [pathFromTop, linked.ancestors_of_parent? owned]

/-- The path to a node begins with the paths to the nodes on it. -/
theorem pathFromTop_eq_append (linked : document.Linked) {before after : List NodeId}
    (split : document.pathFromTop id = before ++ child :: after) :
    document.pathFromTop child = before ++ [child] ∧
      document.isInclusiveDescendantOf id child = true := by
  induction id using linked.grounded.induction generalizing after with
  | _ id inductionHypothesis =>
      rcases List.eq_nil_or_concat after with rfl | ⟨after, last, rfl⟩
      · obtain ⟨shape, same⟩ := List.append_inj' split rfl
        obtain rfl : id = child := List.head_eq_of_cons_eq same
        exact ⟨split, isInclusiveDescendantOf_iff.2 (.inl rfl)⟩
      · rw [List.concat_eq_append, ← List.cons_append, ← List.append_assoc] at split
        cases owned : document.parent? id with
        | none =>
            rw [pathFromTop, ancestors_of_parent?_eq_none owned] at split
            have counted := congrArg List.length split
            simp only [List.length_append, List.length_reverse, List.length_nil,
              List.length_cons] at counted
            omega
        | some parent =>
            rw [linked.pathFromTop_of_parent? owned] at split
            obtain ⟨path, below⟩ := inductionHypothesis parent owned (List.append_inj' split rfl).1
            exact ⟨path, linked.isInclusiveDescendantOf_of_parent? owned below⟩

/-- The node before another on a path is its parent. -/
theorem parent?_of_pathFromTop_eq (linked : document.Linked) {before after : List NodeId}
    (split : document.pathFromTop id = before ++ parent :: child :: after) :
    document.parent? child = some parent := by
  have shorter := (linked.pathFromTop_eq_append split).1
  rw [List.append_cons] at split
  have whole := (linked.pathFromTop_eq_append split).1
  cases owned : document.parent? child with
  | none =>
      rw [pathFromTop, ancestors_of_parent?_eq_none owned] at whole
      have counted := congrArg List.length whole
      simp at counted
  | some above =>
      rw [linked.pathFromTop_of_parent? owned] at whole
      have same := (List.append_inj' whole rfl).1
      exact congrArg some (List.head_eq_of_cons_eq (List.append_inj' same rfl).2)

/-- The nodes of one subtree stand together in a greater one. -/
theorem subtree_sublist (linked : document.Linked)
    (inside : document.isInclusiveDescendantOf id top = true) :
    (id :: document.descendants id).Sublist (top :: document.descendants top) := by
  induction id using linked.grounded.induction with
  | _ id inductionHypothesis =>
      rcases isInclusiveDescendantOf_iff.1 inside with rfl | below
      · exact .refl _
      · obtain ⟨parent, owned, place⟩ := linked.mem_ancestors.1 below
        have wider := inductionHypothesis parent owned
          (isInclusiveDescendantOf_iff.2 (place.imp_left Eq.symm))
        obtain ⟨before, after, row⟩ := linked.exists_place owned
        refine .trans (.trans ?_ (List.sublist_cons_self parent _)) wider
        rw [linked.descendants_eq parent, row, List.flatMap_append, List.flatMap_cons]
        exact (List.sublist_append_left _ _).trans (List.sublist_append_right _ _)

theorem mem_subtree (linked : document.Linked) :
    id ∈ top :: document.descendants top ↔
      document.isInclusiveDescendantOf id top = true := by
  rw [List.mem_cons, linked.mem_descendants, isInclusiveDescendantOf_iff]

/-- A node stands before the nodes below it. -/
theorem before_of_mem_ancestors (linked : document.Linked)
    (inside : document.isInclusiveDescendantOf first top = true)
    (below : first ∈ document.ancestors second) :
    [first, second].Sublist (top :: document.descendants top) := by
  refine .trans ?_ (linked.subtree_sublist inside)
  exact (List.singleton_sublist.2 (linked.mem_descendants.2 below)).cons_cons first

/-- What hangs below one child of a parent stands before what hangs below a later one. -/
theorem before_of_siblings (linked : document.Linked) {branch other : NodeId}
    (inside : document.isInclusiveDescendantOf parent top = true)
    (row : [branch, other].Sublist (document.children parent))
    (left : document.isInclusiveDescendantOf first branch = true)
    (right : document.isInclusiveDescendantOf second other = true) :
    [first, second].Sublist (top :: document.descendants top) := by
  refine .trans (.trans ?_ (List.sublist_cons_self parent _)) (linked.subtree_sublist inside)
  rw [linked.descendants_eq parent]
  refine .trans ?_ (row.flatMap _)
  rw [List.flatMap_cons, List.flatMap_singleton]
  exact (List.singleton_sublist.2 (linked.mem_subtree.2 left)).append
    (List.singleton_sublist.2 (linked.mem_subtree.2 right))

/-- The path to a node begins with the path to what it hangs below. -/
theorem exists_pathFromTop_append (linked : document.Linked)
    (inside : document.isInclusiveDescendantOf id top = true) :
    ∃ after, document.pathFromTop id = document.pathFromTop top ++ after := by
  induction id using linked.grounded.induction with
  | _ id inductionHypothesis =>
      rcases isInclusiveDescendantOf_iff.1 inside with rfl | below
      · exact ⟨[], (List.append_nil _).symm⟩
      · obtain ⟨parent, owned, place⟩ := linked.mem_ancestors.1 below
        obtain ⟨after, path⟩ := inductionHypothesis parent owned
          (isInclusiveDescendantOf_iff.2 (place.imp_left Eq.symm))
        refine ⟨after ++ [id], ?_⟩
        rw [linked.pathFromTop_of_parent? owned, path, List.append_assoc]

theorem pathFromTop_injective (same : document.pathFromTop first = document.pathFromTop second) :
    first = second :=
  List.head_eq_of_cons_eq (List.append_inj' same rfl).2

/-- Where the paths to two nodes below one top part, they have run through the top. -/
theorem exists_common (linked : document.Linked) {common rest more : List NodeId}
    (left : document.isInclusiveDescendantOf first top = true)
    (right : document.isInclusiveDescendantOf second top = true)
    (path : document.pathFromTop first = common ++ rest)
    (other : document.pathFromTop second = common ++ more)
    (parted : ∀ id ∈ rest.head?, id ∉ more.head?) :
    ∃ after, common = document.pathFromTop top ++ after := by
  obtain ⟨one, first⟩ := linked.exists_pathFromTop_append left
  obtain ⟨two, second⟩ := linked.exists_pathFromTop_append right
  rw [path] at first
  rw [other] at second
  rcases List.append_eq_append_iff.1 first with ⟨short, shape, along⟩ | ⟨after, shape, -⟩
  · cases short with
    | nil => exact ⟨[], by rw [shape]; simp⟩
    | cons branch short =>
        rw [shape, List.append_assoc, List.append_cancel_left_eq] at second
        rw [along, second] at parted
        exact absurd rfl (parted branch rfl)
  · exact ⟨after, shape⟩

/-- The paths to two nodes below one top part behind a parent that lies below the top, too. -/
theorem exists_fork_below (linked : document.Linked)
    (left : document.isInclusiveDescendantOf first top = true)
    (right : document.isInclusiveDescendantOf second top = true) :
    ∃ front parent rest more, document.pathFromTop first = front ++ parent :: rest ∧
      document.pathFromTop second = front ++ parent :: more ∧
      (∀ id ∈ rest.head?, id ∉ more.head?) ∧
      document.isInclusiveDescendantOf parent top = true := by
  obtain ⟨common, rest, more, path, other, parted⟩ :=
    exists_fork (document.pathFromTop first) (document.pathFromTop second)
  obtain ⟨after, shape⟩ := linked.exists_common left right path other parted
  obtain rfl | ⟨front, parent, rfl⟩ := List.eq_nil_or_concat' common
  · simp [pathFromTop] at shape
  have joint : document.pathFromTop first = front ++ parent :: rest := by simpa using path
  have union : document.pathFromTop second = front ++ parent :: more := by simpa using other
  have own : document.pathFromTop parent = (document.ancestors top).reverse ++ top :: after := by
    rw [(linked.pathFromTop_eq_append joint).1, shape, pathFromTop, List.append_assoc]
    rfl
  exact ⟨front, parent, rest, more, joint, union, parted, (linked.pathFromTop_eq_append own).2⟩

/-- Nodes compare where their paths part: as the children of the parent there do, or the path that ends
there comes first. -/
theorem compareOrder_of_fork {front rest more : List NodeId} (different : first ≠ second)
    (joint : document.pathFromTop first = front ++ parent :: rest)
    (union : document.pathFromTop second = front ++ parent :: more)
    (parted : ∀ id ∈ rest.head?, id ∉ more.head?) :
    document.compareOrder first second =
      match rest.head?, more.head? with
      | some branch, some other => comparePlaces ((document.children parent).idxOf? branch)
          ((document.children parent).idxOf? other)
      | _, _ => compare rest.length more.length := by
  rw [List.append_cons] at joint union
  have shared := sharedLength_append (front ++ [parent]) parted
  have counted : (front ++ [parent]).length ≠ 0 := by simp
  have place : ∀ nodes : List NodeId,
      (front ++ [parent] ++ nodes)[(front ++ [parent]).length]? = nodes.head? := by
    intro nodes
    rw [List.getElem?_append_right (Nat.le_refl _), Nat.sub_self, List.head?_eq_getElem?]
  have last : (front ++ [parent] ++ rest)[(front ++ [parent]).length - 1]? = some parent := by simp
  have measured : compare (front ++ [parent] ++ rest).length (front ++ [parent] ++ more).length =
      compare rest.length more.length := by
    simp only [List.length_append, Nat.compare_eq_ite_lt, Nat.add_lt_add_iff_left]
  rw [compareOrder, if_neg different, joint, union]
  dsimp only
  rw [shared, if_neg counted, place, place, last, measured]
  rfl

/-- A node at which the path to another goes on stands before it. -/
theorem before_of_fork (linked : document.Linked) {front more : List NodeId}
    (inside : document.isInclusiveDescendantOf parent top = true) (different : first ≠ second)
    (joint : document.pathFromTop first = front ++ [parent])
    (union : document.pathFromTop second = front ++ parent :: more) :
    [first, second].Sublist (top :: document.descendants top) := by
  obtain rfl : first = parent := List.head_eq_of_cons_eq (List.append_inj' joint rfl).2
  have below := (linked.pathFromTop_eq_append union).2
  have above := (isInclusiveDescendantOf_iff.1 below).resolve_left different.symm
  exact linked.before_of_mem_ancestors inside above

/-- Two nodes of one subtree compare as they stand in it. -/
theorem compareOrder_spec (linked : document.Linked)
    (left : document.isInclusiveDescendantOf first top = true)
    (right : document.isInclusiveDescendantOf second top = true) :
    match document.compareOrder first second with
    | .lt => [first, second].Sublist (top :: document.descendants top)
    | .eq => first = second
    | .gt => [second, first].Sublist (top :: document.descendants top) := by
  by_cases same : first = second
  case pos => rwa [compareOrder, if_pos same]
  obtain ⟨front, parent, rest, more, joint, union, parted, inside⟩ :=
    linked.exists_fork_below left right
  rw [compareOrder_of_fork same joint union parted]
  rcases rest with _ | ⟨branch, rest⟩ <;> rcases more with _ | ⟨other, more⟩
  · exact absurd (pathFromTop_injective (joint.trans union.symm)) same
  · have ends : compare ([] : List NodeId).length (other :: more).length = .lt :=
      Nat.compare_eq_lt.2 (Nat.succ_pos _)
    simp only [ends]
    exact linked.before_of_fork inside same joint union
  · have ends : compare (branch :: rest).length ([] : List NodeId).length = .gt :=
      Nat.compare_eq_gt.2 (Nat.succ_pos _)
    simp only [ends]
    exact linked.before_of_fork inside (Ne.symm same) union joint
  · have member := linked.childIff.2 (linked.parent?_of_pathFromTop_eq joint)
    have belongs := linked.childIff.2 (linked.parent?_of_pathFromTop_eq union)
    rw [List.append_cons] at joint union
    have one := (linked.pathFromTop_eq_append joint).2
    have two := (linked.pathFromTop_eq_append union).2
    have row := comparePlaces_spec member belongs
    simp only [List.head?_cons]
    split at row
    · exact linked.before_of_siblings inside row one two
    · exact absurd (congrArg some row.symm) (parted branch rfl)
    · exact linked.before_of_siblings inside row two one

/-- Nodes of one subtree compare by their places in it. -/
theorem compareOrder_eq_compare (linked : document.Linked)
    (left : document.isInclusiveDescendantOf first top = true)
    (right : document.isInclusiveDescendantOf second top = true) :
    document.compareOrder first second =
      compare ((top :: document.descendants top).idxOf first)
        ((top :: document.descendants top).idxOf second) := by
  have distinct := linked.nodup_subtree top
  have order := linked.compareOrder_spec left right
  symm
  split at order
  · rename_i shape
    rw [shape, Nat.compare_eq_lt]
    exact idxOf_lt_of_pair_sublist distinct order
  · rename_i shape
    rw [shape, Nat.compare_eq_eq, order]
  · rename_i shape
    rw [shape, Nat.compare_eq_gt]
    exact idxOf_lt_of_pair_sublist distinct order

/-- The earliest of several nodes below one top is the first of them in its subtree. -/
theorem earliest?_eq_find? (linked : document.Linked) {nodes : List NodeId}
    (inside : ∀ id ∈ nodes, document.isInclusiveDescendantOf id top = true) :
    document.earliest? nodes = (top :: document.descendants top).find? nodes.contains := by
  generalize order : top :: document.descendants top = subtree
  have place : ∀ id ∈ nodes, id ∈ subtree := fun id member =>
    order ▸ linked.mem_subtree.2 (inside id member)
  have earlier : ∀ best ∈ nodes, ∀ other ∈ nodes, document.compareOrder best other =
      compare (subtree.idxOf best) (subtree.idxOf other) := fun best member other belongs =>
    order ▸ linked.compareOrder_eq_compare (inside best member) (inside other belongs)
  cases nodes with
  | nil => exact (List.find?_eq_none.2 fun _ _ => by simp).symm
  | cons first rest =>
      obtain ⟨best, member, shape, least⟩ := earliest?_eq_some earlier
      rw [shape, find?_eq_some_of_idxOf_le (place best member) (by simpa using member)]
      intro other _ belongs
      exact least other (by simpa using belongs)

end Linked

end ElementQuery.Document

/-
This file shows that the links of a document agree after any edits that keep nodes from being
appended below themselves, and says what the walks along these links then find.
-/

import ElementQuery.Proofs.Document.Edits

namespace ElementQuery.Document

/-- Two documents link the same nodes in the same way. -/
structure SameLinks (document other : Document) : Prop where
  parent? : ∀ id, other.parent? id = document.parent? id
  children : ∀ id, other.children id = document.children id
  previous? : ∀ id, other.previous? id = document.previous? id
  next? : ∀ id, other.next? id = document.next? id

/-- Whether the links agree is seen from the links alone. -/
theorem Linked.of_sameLinks {document other : Document} (linked : document.Linked)
    (same : SameLinks document other) : other.Linked where
  childIff := by
    intro parent child
    rw [same.children, same.parent?]
    exact linked.childIff
  distinct := by
    intro parent
    rw [same.children]
    exact linked.distinct parent
  neighbours := by
    intro parent child before after place
    rw [same.children] at place
    rw [same.previous?, same.next?]
    exact linked.neighbours place
  alone := by
    intro id orphan
    rw [same.parent?] at orphan
    rw [same.previous?, same.next?]
    exact linked.alone orphan
  grounded := by
    simp only [same.parent?]
    exact linked.grounded

section Steps

variable {document : Document} {parent child id : NodeId}

theorem sameLinks_create {content : Content} :
    SameLinks document (document.create content).2 := by
  have absent : document.node? document.size = none := node?_eq_none_iff.2 (Nat.le_refl _)
  constructor <;> intro id
  · unfold parent?
    rw [node?_create]
    split <;> simp_all
  · unfold children
    rw [node?_create]
    split <;> simp_all
  · unfold previous?
    rw [node?_create]
    split <;> simp_all
  · unfold next?
    rw [node?_create]
    split <;> simp_all

/-- An edit that changes the attributes of one node leaves all links as they are. -/
theorem sameLinks_of_mapAttributes {result : Document} {change : Attributes → Attributes}
    (changed : ∀ other, result.node? other = (document.node? other).map fun node =>
      if id = other then { node with content := node.content.mapAttributes change } else node) :
    SameLinks document result := by
  constructor <;> intro other
  · unfold parent?
    rw [changed]
    cases document.node? other <;> by_cases same : id = other <;> simp [same]
  · unfold children
    rw [changed]
    cases document.node? other <;> by_cases same : id = other <;> simp [same]
  · unfold previous?
    rw [changed]
    cases document.node? other <;> by_cases same : id = other <;> simp [same]
  · unfold next?
    rw [changed]
    cases document.node? other <;> by_cases same : id = other <;> simp [same]

section Rows

variable {before after front back : List NodeId}

/-- A child stands only once in its row, and so do the nodes around it. -/
theorem Linked.row_apart (linked : document.Linked)
    (place : document.children parent = before ++ child :: after) :
    child ∉ before ∧ child ∉ after ∧ ∀ id ∈ before, id ∉ after := by
  have distinct := linked.distinct parent
  rw [place] at distinct
  grind

theorem Linked.of_previous?_eq_some (linked : document.Linked)
    (place : document.children parent = before ++ child :: after)
    (beside : document.previous? child = some id) :
    id ∈ before ∧ document.parent? id = some parent := by
  have owned : document.parent? child = some parent := linked.childIff.1 (by simp [place])
  rw [linked.parent?_of_previous? beside]
  exact ⟨List.mem_of_getLast? ((linked.neighbours place).1.symm.trans beside), owned⟩

theorem Linked.of_next?_eq_some (linked : document.Linked)
    (place : document.children parent = before ++ child :: after)
    (beside : document.next? child = some id) :
    id ∈ after ∧ document.parent? id = some parent := by
  have owned : document.parent? child = some parent := linked.childIff.1 (by simp [place])
  rw [linked.parent?_of_next? beside]
  exact ⟨List.mem_of_head? ((linked.neighbours place).2.symm.trans beside), owned⟩

/-- When a child is taken down, the node before it gets the node after it as its next sibling. -/
theorem Linked.neighbours_detach_before (linked : document.Linked)
    (place : document.children parent = (front ++ id :: back) ++ child :: after) :
    (document.detach parent child).previous? id = front.getLast? ∧
      (document.detach parent child).next? id = (back ++ after).head? := by
  obtain ⟨strange, -, apart⟩ := linked.row_apart place
  have member : child ∈ document.children parent := by simp [place]
  have inside : id ∈ document.children parent := by simp [place]
  have old : document.children parent = front ++ id :: (back ++ child :: after) := by simp [place]
  have stays : document.next? child ≠ some id := by
    intro beside
    exact apart id (by simp) (linked.of_next?_eq_some place beside).1
  have other : child ≠ id := by
    intro equal
    obtain rfl := equal
    exact strange (by simp)
  rw [previous?_detach member (linked.child_lt_size inside),
    next?_detach member (linked.child_lt_size inside), (linked.neighbours old).1,
    (linked.neighbours old).2]
  rcases List.eq_nil_or_concat back with rfl | ⟨back, last, rfl⟩
  · have beside : document.previous? child = some id := by simp [(linked.neighbours place).1]
    rw [if_neg stays, if_neg other, if_pos beside, (linked.neighbours place).2]
    simp
  · have farther : document.previous? child ≠ some id := by
      rw [(linked.neighbours place).1]
      have distinct := linked.distinct parent
      rw [place] at distinct
      grind
    rw [if_neg stays, if_neg farther, if_neg other, if_neg other]
    simp

/-- When a child is taken down, the node after it gets the node before it as its previous sibling. -/
theorem Linked.neighbours_detach_after (linked : document.Linked)
    (place : document.children parent = before ++ child :: (front ++ id :: back)) :
    (document.detach parent child).previous? id = (before ++ front).getLast? ∧
      (document.detach parent child).next? id = back.head? := by
  obtain ⟨-, strange, apart⟩ := linked.row_apart place
  have member : child ∈ document.children parent := by simp [place]
  have inside : id ∈ document.children parent := by simp [place]
  have old : document.children parent = (before ++ child :: front) ++ id :: back := by simp [place]
  have stays : document.previous? child ≠ some id := by
    intro beside
    exact apart id (linked.of_previous?_eq_some place beside).1 (by simp)
  have other : child ≠ id := by
    intro equal
    obtain rfl := equal
    exact strange (by simp)
  rw [previous?_detach member (linked.child_lt_size inside),
    next?_detach member (linked.child_lt_size inside), (linked.neighbours old).1,
    (linked.neighbours old).2]
  cases front with
  | nil =>
      have beside : document.next? child = some id := (linked.neighbours place).2
      rw [if_pos beside, if_neg stays, if_neg other, (linked.neighbours place).1]
      simp
  | cons first front =>
      have farther : document.next? child ≠ some id := by
        rw [(linked.neighbours place).2]
        have distinct := linked.distinct parent
        rw [place] at distinct
        grind
      rw [if_neg farther, if_neg stays, if_neg other, if_neg other]
      simp

/-- Taking a child down leaves the neighbours of all nodes with another parent. -/
theorem Linked.neighbours_detach_elsewhere (linked : document.Linked)
    (member : child ∈ document.children parent) {other : NodeId} (different : parent ≠ other)
    (inside : id ∈ document.children other) :
    (document.detach parent child).previous? id = document.previous? id ∧
      (document.detach parent child).next? id = document.next? id := by
  obtain ⟨before, after, place⟩ := List.append_of_mem member
  have owned := linked.childIff.1 member
  have owns := linked.childIff.1 inside
  have farther : document.previous? child ≠ some id := by
    intro beside
    have owner := (linked.of_previous?_eq_some place beside).2
    exact different (Option.some.inj (owner.symm.trans owns))
  have further : document.next? child ≠ some id := by
    intro beside
    have owner := (linked.of_next?_eq_some place beside).2
    exact different (Option.some.inj (owner.symm.trans owns))
  rw [previous?_detach member (linked.child_lt_size inside),
    next?_detach member (linked.child_lt_size inside)]
  grind

/-- When a child is taken down, the others in every row have the neighbours that stand beside them there. -/
theorem Linked.neighbours_detach (linked : document.Linked) (member : child ∈ document.children parent)
    {other : NodeId} (located : (document.detach parent child).children other = front ++ id :: back) :
    (document.detach parent child).previous? id = front.getLast? ∧
      (document.detach parent child).next? id = back.head? := by
  rw [children_detach member] at located
  split at located
  case isFalse different =>
    have inside : id ∈ document.children other := by simp [located]
    obtain ⟨previous, next⟩ := linked.neighbours_detach_elsewhere member different inside
    rw [previous, next]
    exact linked.neighbours located
  case isTrue same =>
    subst same
    obtain ⟨before, after, place⟩ := List.append_of_mem member
    obtain ⟨strange, -, -⟩ := linked.row_apart place
    rw [place, List.erase_append_right _ strange, List.erase_cons_head] at located
    -- the node stands behind the gap, or is the first one there, or stands before it
    rcases List.append_eq_append_iff.1 located with
      ⟨middle, rfl, rfl⟩ | ⟨_ | ⟨first, middle⟩, rfl, shape⟩
    · exact linked.neighbours_detach_after place
    · obtain rfl : id :: back = after := shape
      have located : document.children parent = (front ++ []) ++ child :: ([] ++ id :: back) :=
        place
      simpa using linked.neighbours_detach_after located
    · obtain ⟨rfl, rfl⟩ := List.cons.inj shape
      exact linked.neighbours_detach_before place

end Rows

/-- A node that the table does not have has no neighbours. -/
theorem unlinked_of_size_le (outside : document.size ≤ id) :
    document.previous? id = none ∧ document.next? id = none := by
  have absent : document.node? id = none := node?_eq_none_iff.2 outside
  simp [previous?, next?, absent]

/-- When a child is taken down, neither it nor another node without a parent has neighbours. -/
theorem Linked.alone_detach (linked : document.Linked) (member : child ∈ document.children parent)
    (orphan : (document.detach parent child).parent? id = none) :
    (document.detach parent child).previous? id = none ∧
      (document.detach parent child).next? id = none := by
  rcases Nat.lt_or_ge id document.size with inside | outside
  case inr => exact unlinked_of_size_le (by simpa using outside)
  obtain ⟨before, after, place⟩ := List.append_of_mem member
  have lonely := @Linked.alone _ linked id
  have beside : document.previous? child = some id →
      id ∈ before ∧ document.parent? id = some parent := linked.of_previous?_eq_some place
  have beyond : document.next? child = some id →
      id ∈ after ∧ document.parent? id = some parent := linked.of_next?_eq_some place
  obtain ⟨strange, absent, -⟩ := linked.row_apart place
  rw [parent?_detach member] at orphan
  rw [previous?_detach member inside, next?_detach member inside]
  grind

/-- Taking a child down keeps the links in agreement: its neighbours become neighbours. -/
theorem Linked.detach (linked : document.Linked) : (document.detach parent child).Linked := by
  by_cases member : child ∈ document.children parent
  case neg => rwa [detach_of_not_mem member]
  constructor
  case childIff =>
    intro other id
    rw [children_detach member, parent?_detach member]
    split
    · rename_i same
      subst same
      rw [(linked.distinct parent).mem_erase_iff, linked.childIff]
      grind
    · have owned := linked.childIff.1 member
      rw [linked.childIff]
      grind
  case distinct =>
    intro other
    rw [children_detach member]
    split
    · exact (linked.distinct other).erase child
    · exact linked.distinct other
  case neighbours => exact linked.neighbours_detach member
  case alone => exact linked.alone_detach member
  case grounded =>
    apply Subrelation.wf _ linked.grounded
    intro ancestor id owns
    rw [parent?_detach member] at owns
    split at owns
    · cases owns
    · exact owns

/-- Parent chains that miss an attached child end as before. -/
theorem Linked.acc_attach (linked : document.Linked) (fits : child < document.size)
    (apart : document.isInclusiveDescendantOf id child = false) :
    Acc (fun owner id => (document.attach parent child).parent? id = some owner) id := by
  induction id using linked.grounded.induction with
  | _ id inductionHypothesis =>
      have other : child ≠ id := by
        intro equal
        obtain rfl := equal
        simp [isInclusiveDescendantOf] at apart
      constructor
      intro ancestor owns
      rw [parent?_attach fits, if_neg other] at owns
      apply inductionHypothesis ancestor owns
      rw [Bool.eq_false_iff] at apart ⊢
      intro below
      exact apart (linked.isInclusiveDescendantOf_of_parent? owns below)

/-- The chain of the new parent misses the child, so that of the child ends, and then all do. -/
theorem Linked.grounded_attach (linked : document.Linked) (fits : child < document.size)
    (outside : document.isInclusiveDescendantOf parent child = false) :
    WellFounded fun owner id => (document.attach parent child).parent? id = some owner := by
  have own : Acc (fun owner id => (document.attach parent child).parent? id = some owner)
      child := by
    constructor
    intro ancestor owns
    rw [parent?_attach fits, if_pos rfl, Option.some.injEq] at owns
    exact owns ▸ linked.acc_attach fits outside
  constructor
  intro id
  induction id using linked.grounded.induction with
  | _ id inductionHypothesis =>
      by_cases same : child = id
      · exact same ▸ own
      · constructor
        intro ancestor owns
        rw [parent?_attach fits, if_neg same] at owns
        exact inductionHypothesis ancestor owns

/-- An orphan is the child of no node. -/
theorem Linked.not_mem_children_of_orphan (linked : document.Linked)
    (orphan : document.parent? child = none) (other : NodeId) : child ∉ document.children other := by
  intro member
  rw [linked.childIff.1 member] at orphan
  cases orphan

/-- When a child is hung up, the last child before it gets it as its next sibling. -/
theorem Linked.neighbours_attach_before {front back : List NodeId} (linked : document.Linked)
    (fits : child < document.size) (strange : child ∉ document.children parent)
    (place : document.children parent = front ++ id :: back) :
    (document.attach parent child).previous? id = front.getLast? ∧
      (document.attach parent child).next? id = (back ++ [child]).head? := by
  have member : id ∈ document.children parent := by simp [place]
  have other : child ≠ id := by
    intro equal
    obtain rfl := equal
    exact strange member
  rw [previous?_attach fits, next?_attach (linked.child_lt_size member), if_neg other,
    (linked.neighbours place).1, (linked.neighbours place).2]
  refine ⟨rfl, ?_⟩
  rcases List.eq_nil_or_concat back with rfl | ⟨back, last, rfl⟩
  · simp [lastChild?, place]
  · obtain ⟨-, apart, -⟩ := linked.row_apart place
    have farther : document.lastChild? parent ≠ some id := by
      rw [lastChild?, place]
      grind
    rw [if_neg farther]
    simp

/-- When an orphan is hung up, the nodes in every row have the neighbours that stand beside them there. -/
theorem Linked.neighbours_attach {front back : List NodeId} {other : NodeId} (linked : document.Linked)
    (inside : parent < document.size) (fits : child < document.size)
    (orphan : document.parent? child = none)
    (located : (document.attach parent child).children other = front ++ id :: back) :
    (document.attach parent child).previous? id = front.getLast? ∧
      (document.attach parent child).next? id = back.head? := by
  have strange := linked.not_mem_children_of_orphan orphan
  have owned : ∀ {last : NodeId}, document.lastChild? parent = some last →
      document.parent? last = some parent :=
    fun last => linked.childIff.1 (List.mem_of_getLast? last)
  rw [children_attach inside] at located
  split at located
  case isFalse different =>
    have member : id ∈ document.children other := by simp [located]
    have stays : child ≠ id := by
      rintro rfl
      exact strange other member
    have apart : document.lastChild? parent ≠ some id := fun last =>
      different (Option.some.inj ((owned last).symm.trans (linked.childIff.1 member)))
    rw [previous?_attach fits, next?_attach (linked.child_lt_size member), if_neg stays,
      if_neg apart]
    exact linked.neighbours located
  case isTrue same =>
    subst same
    rcases List.eq_nil_or_concat back with rfl | ⟨back, last, rfl⟩
    · obtain ⟨rfl, shape⟩ := List.append_inj' located rfl
      obtain rfl : child = id := List.head_eq_of_cons_eq shape
      have apart : document.lastChild? parent ≠ some child := fun last =>
        strange parent (List.mem_of_getLast? last)
      have lonely := linked.alone orphan
      rw [previous?_attach fits, next?_attach fits, if_pos rfl, if_neg apart, lonely.1, lonely.2]
      simp [lastChild?]
    · rw [List.concat_eq_append, ← List.cons_append, ← List.append_assoc] at located
      obtain ⟨place, shape⟩ := List.append_inj' located rfl
      obtain rfl : child = last := List.head_eq_of_cons_eq shape
      rw [List.concat_eq_append]
      exact linked.neighbours_attach_before fits (strange parent) place

/-- When a child is hung up, the nodes that still have no parent have no neighbours. -/
theorem Linked.alone_attach (linked : document.Linked) (fits : child < document.size)
    (orphan : (document.attach parent child).parent? id = none) :
    (document.attach parent child).previous? id = none ∧
      (document.attach parent child).next? id = none := by
  rcases Nat.lt_or_ge id document.size with inside | outside
  case inr => exact unlinked_of_size_le (by simpa using outside)
  rw [parent?_attach fits] at orphan
  split at orphan
  · cases orphan
  · rename_i different
    have apart : document.lastChild? parent ≠ some id := by
      intro last
      rw [linked.childIff.1 (List.mem_of_getLast? last)] at orphan
      cases orphan
    rw [previous?_attach fits, next?_attach inside, if_neg different, if_neg apart]
    exact linked.alone orphan

/-- Hanging up an orphan that the parent is not below keeps the links in agreement: the orphan
becomes the last child. -/
theorem Linked.attach (linked : document.Linked) (inside : parent < document.size)
    (fits : child < document.size) (orphan : document.parent? child = none)
    (outside : document.isInclusiveDescendantOf parent child = false) :
    (document.attach parent child).Linked := by
  constructor
  case childIff =>
    intro other id
    rw [children_attach inside, parent?_attach fits]
    have old := @Linked.childIff _ linked other id
    grind
  case distinct =>
    intro other
    rw [children_attach inside]
    have old := linked.distinct other
    split
    · have strange := linked.not_mem_children_of_orphan orphan
      exact List.nodup_append.2 ⟨old, by simp, by grind⟩
    · exact old
  case neighbours => exact linked.neighbours_attach inside fits orphan
  case alone => exact linked.alone_attach fits
  case grounded => exact linked.grounded_attach fits outside

/-- Taking a child down brings no node below another. -/
theorem Linked.ancestors_detach_subset (linked : document.Linked) :
    (document.detach parent child).ancestors id ⊆ document.ancestors id := by
  by_cases member : child ∈ document.children parent
  case neg => rw [detach_of_not_mem member]; exact List.Subset.refl _
  induction id using linked.grounded.induction with
  | _ id inductionHypothesis =>
      intro ancestor below
      obtain ⟨owner, owns, place⟩ := linked.detach.mem_ancestors.1 below
      rw [parent?_detach member] at owns
      split at owns
      · cases owns
      · exact linked.mem_ancestors.2
          ⟨owner, owns, place.imp_right fun above => inductionHypothesis owner owns above⟩

/-- Appending a child that the parent is not below keeps the links in agreement. -/
theorem Linked.append? {result : Document} (linked : document.Linked)
    (outside : document.isInclusiveDescendantOf parent child = false)
    (appended : document.append? parent child = some result) : result.Linked := by
  unfold Document.append? at appended
  split at appended
  case isFalse => cases appended
  case isTrue inside =>
    obtain rfl := Option.some.inj appended
    cases owned : document.parent? child with
    | none => exact linked.attach inside.1 inside.2 owned outside
    | some old =>
        have orphan : (document.detach old child).parent? child = none := by
          rw [parent?_detach (linked.childIff.2 owned), if_pos rfl]
        refine linked.detach.attach (by simpa using inside.1) (by simpa using inside.2) orphan
          (Bool.eq_false_iff.2 fun below => Bool.eq_false_iff.1 outside ?_)
        rw [isInclusiveDescendantOf_iff] at below ⊢
        exact below.imp_right fun above => linked.ancestors_detach_subset above

theorem linked_empty : empty.Linked := by
  have only : ∀ {id : NodeId} {node : Node}, empty.node? id = some node →
      node = { content := .document } := by
    intro id node found
    have member : node ∈ empty.nodes := Array.mem_of_getElem? found
    simpa [empty] using member
  have parents : ∀ id, empty.parent? id = none := by
    intro id
    cases found : empty.node? id with
    | none => simp [parent?, found]
    | some node => simp [parent?, found, only found]
  have children : ∀ id, empty.children id = [] := by
    intro id
    cases found : empty.node? id with
    | none => simp [Document.children, found]
    | some node => simp [Document.children, found, only found]
  constructor
  case childIff => simp [parents, children]
  case distinct => simp [children]
  case neighbours => simp [children]
  case alone =>
    intro id _
    cases found : empty.node? id with
    | none => simp [previous?, next?, found]
    | some node => simp [previous?, next?, found, only found]
  case grounded =>
    refine ⟨fun id => ⟨id, fun ancestor owns => ?_⟩⟩
    rw [parents] at owns
    cases owns

end Steps

/-- The edits that a document offers. -/
inductive Edit where
  | create (content : Content)
  | createElement (tag : String) (pairs : List (String × String))
  | createText (data : String)
  | createComment (data : String)
  | append (parent child : NodeId)
  | remove (parent child : NodeId)
  | setAttribute (id : NodeId) (name value : String)
  | removeAttribute (id : NodeId) (name : String)

/-- An edit that names a node outside the table is refused. -/
def Edit.perform? (document : Document) : Edit → Option Document
  | .create content => some (document.create content).2
  | .createElement tag pairs => some (document.createElement tag pairs).2
  | .createText data => some (document.createText data).2
  | .createComment data => some (document.createComment data).2
  | .append parent child => document.append? parent child
  | .remove parent child => document.remove? parent child
  | .setAttribute id name value =>
      if id < document.size then some (document.setAttribute id name value) else none
  | .removeAttribute id name =>
      if id < document.size then some (document.removeAttribute id name) else none

/-- No node is appended below itself, and an element comes with attributes of different names, as
every list of attributes has that was filled by insertions. -/
def Edit.Allowed (document : Document) : Edit → Prop
  | .create content => content.HasDistinctNames
  | .append parent child => document.isInclusiveDescendantOf parent child = false
  | _ => True

instance (content : Content) : Decidable content.HasDistinctNames :=
  match content with
  | .element held => inferInstanceAs (Decidable held.attributes.names.Nodup)
  | .document | .text _ | .comment _ => isTrue trivial

instance (document : Document) (edit : Edit) : Decidable (edit.Allowed document) :=
  match edit with
  | .create content => inferInstanceAs (Decidable content.HasDistinctNames)
  | .append parent child =>
      inferInstanceAs (Decidable (document.isInclusiveDescendantOf parent child = false))
  | .createElement _ _ | .createText _ | .createComment _ | .remove _ _ | .setAttribute _ _ _
  | .removeAttribute _ _ => isTrue trivial

/-- Edits are performed one after the other, as long as they are allowed. -/
def run? (document : Document) : List Edit → Option Document
  | [] => some document
  | edit :: rest =>
      if edit.Allowed document then (edit.perform? document).bind fun result => run? result rest
      else none

/-- The documents that allowed edits lead to from the empty one. -/
inductive Reachable : Document → Prop
  | empty : Reachable empty
  | edit {document result : Document} {edit : Edit} (earlier : Reachable document)
      (allowed : edit.Allowed document) (performed : edit.perform? document = some result) :
      Reachable result

/-- An allowed edit keeps the links in agreement. -/
theorem Linked.edit {document result : Document} {edit : Edit} (linked : document.Linked)
    (allowed : edit.Allowed document) (performed : edit.perform? document = some result) :
    result.Linked := by
  cases edit with
  | create content =>
      obtain rfl := Option.some.inj performed
      exact linked.of_sameLinks sameLinks_create
  | createElement tag pairs =>
      obtain rfl := Option.some.inj performed
      exact linked.of_sameLinks sameLinks_create
  | createText data =>
      obtain rfl := Option.some.inj performed
      exact linked.of_sameLinks sameLinks_create
  | createComment data =>
      obtain rfl := Option.some.inj performed
      exact linked.of_sameLinks sameLinks_create
  | append parent child => exact linked.append? allowed performed
  | remove parent child =>
      simp only [Edit.perform?, remove?, Option.ite_none_right_eq_some, Option.some.injEq] at performed
      exact performed.2 ▸ linked.detach
  | setAttribute id name value =>
      simp only [Edit.perform?, Option.ite_none_right_eq_some, Option.some.injEq] at performed
      exact performed.2 ▸ linked.of_sameLinks
        (sameLinks_of_mapAttributes fun _ => node?_setAttribute)
  | removeAttribute id name =>
      simp only [Edit.perform?, Option.ite_none_right_eq_some, Option.some.injEq] at performed
      exact performed.2 ▸ linked.of_sameLinks
        (sameLinks_of_mapAttributes fun _ => node?_removeAttribute)

/-- A run of allowed edits leads from a reachable document to another. -/
theorem Reachable.run {document result : Document} {edits : List Edit}
    (reachable : Reachable document) (ran : document.run? edits = some result) :
    Reachable result := by
  induction edits generalizing document with
  | nil =>
      obtain rfl := Option.some.inj ran
      exact reachable
  | cons edit rest inductionHypothesis =>
      rw [run?] at ran
      split at ran
      · rename_i allowed
        obtain ⟨middle, performed, later⟩ := Option.bind_eq_some_iff.1 ran
        exact inductionHypothesis (reachable.edit allowed performed) later
      · cases ran

/-- A run from the empty document that was checked leads to a reachable document of the checked shape. -/
theorem exists_reachable {edits : List Edit} {shape : Document → Prop} [DecidablePred shape]
    (ran : (empty.run? edits).any (fun document => shape document) = true) :
    ∃ document, Reachable document ∧ shape document := by
  obtain ⟨document, reached, holds⟩ := (Option.any_eq_true _ _).1 ran
  exact ⟨document, Reachable.empty.run reached, of_decide_eq_true holds⟩

/-- The links of every reachable document agree. -/
theorem Reachable.linked {document : Document} (reachable : Reachable document) :
    document.Linked := by
  induction reachable with
  | empty => exact linked_empty
  | edit _ allowed performed inductionHypothesis =>
      exact inductionHypothesis.edit allowed performed

/-- After any allowed edits children and parents name each other, no child comes twice, neighbours
are linked in both directions and the ends of a row to nothing, orphans have no neighbours, and every
chain of parents ends, so that the walks along the links find the siblings around a node. -/
theorem Reachable.links_agree {document : Document} (reachable : Reachable document) :
    (∀ parent child, child ∈ document.children parent ↔ document.parent? child = some parent) ∧
    (∀ parent, (document.children parent).Nodup) ∧
    (∀ parent before first second after,
      document.children parent = before ++ first :: second :: after →
        document.next? first = some second ∧ document.previous? second = some first) ∧
    (∀ parent first, (document.children parent).head? = some first →
      document.previous? first = none) ∧
    (∀ parent last, (document.children parent).getLast? = some last →
      document.next? last = none) ∧
    (∀ id, document.parent? id = none →
      document.previous? id = none ∧ document.next? id = none) ∧
    (∀ id, Walk document.parent? (document.parent? id) (document.ancestors id) ∧
      (id :: document.ancestors id).Nodup) ∧
    (∀ parent before child after, document.children parent = before ++ child :: after →
      document.followingSiblings child = after ∧
      document.precedingSiblings child = before.reverse) ∧
    (∀ id, document.parent? id = none →
      document.followingSiblings id = [] ∧ document.precedingSiblings id = []) := by
  have linked := reachable.linked
  refine ⟨fun _ _ => linked.childIff, linked.distinct, ?_, ?_, ?_, fun _ => linked.alone,
    fun id => ⟨linked.ancestors_walk id, linked.nodup_lineage id⟩, ?_,
    fun _ => linked.siblings_of_parent?_eq_none⟩
  · intro parent before first second after place
    have shifted : document.children parent = (before ++ [first]) ++ second :: after := by
      simp [place]
    rw [(linked.neighbours place).2, (linked.neighbours shifted).1]
    simp
  · intro parent first leading
    obtain ⟨after, place⟩ := List.head?_eq_some_iff.1 leading
    exact (linked.neighbours (place.trans (List.nil_append _).symm)).1
  · intro parent last closing
    obtain ⟨before, place⟩ := List.getLast?_eq_some_iff.1 closing
    exact (linked.neighbours place).2
  · intro parent before child after place
    exact ⟨linked.followingSiblings_eq place, linked.precedingSiblings_eq place⟩

/-- A child that is taken down and a child that is appended once more leave a row of two. -/
theorem links_agree_after_moves : ∃ document, Reachable document ∧
    document.children 1 = [4, 2] ∧ document.followingSiblings 4 = [2] ∧
    document.precedingSiblings 2 = [4] ∧ document.next? 3 = none := by
  have ran : (empty.run? [.createElement "ul" [], .createElement "li" [], .createElement "li" [],
      .createElement "li" [], .append 0 1, .append 1 2, .append 1 3, .append 1 4, .remove 1 3,
      .append 1 2]).any (fun document =>
        document.children 1 = [4, 2] ∧ document.parent? 3 = none) = true := by decide
  obtain ⟨document, reachable, row, orphan⟩ := exists_reachable ran
  obtain ⟨-, -, -, -, -, alone, -, around, -⟩ := reachable.links_agree
  exact ⟨document, reachable, row, (around 1 [] 4 [2] row).1, (around 1 [4] 2 [] row).2,
    (alone 3 orphan).2⟩

end ElementQuery.Document

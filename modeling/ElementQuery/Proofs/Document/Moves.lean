/-
This file says what moving a child changes and what it leaves alone: a move touches the rows of the old and
the new parent and the link of the child to its parent, and taking down what was hung up undoes it.
-/

import ElementQuery.Proofs.Document.Register
import ElementQuery.Proofs.Document.Shared

namespace ElementQuery.Document

/-- Two documents have the same nodes with the same data, attributes included, and the same register. -/
structure SameData (document result : Document) : Prop where
  size : result.size = document.size
  content? : ∀ id, result.content? id = document.content? id
  register : result.register = document.register

/-- A child is gone from all rows of children, and nothing else is changed. -/
structure Freed (document result : Document) (child : NodeId) : Prop extends SameData document result where
  children : ∀ parent, result.children parent = (document.children parent).filter (· ≠ child)
  orphan : result.parent? child = none
  parent? : ∀ id, id ≠ child → result.parent? id = document.parent? id

/-- A child is moved to the end of the row of a parent, and nothing else is changed. -/
structure Moved (document result : Document) (parent child : NodeId) : Prop
    extends SameData document result where
  row : result.children parent = (document.children parent).filter (· ≠ child) ++ [child]
  rows : ∀ other, other ≠ parent →
    result.children other = (document.children other).filter (· ≠ child)
  owned : result.parent? child = some parent
  parent? : ∀ id, id ≠ child → result.parent? id = document.parent? id

variable {document result : Document} {parent child other id : NodeId}

/-- A row without the child stays as it is when the child is left out. -/
theorem filter_children_of_not_mem (strange : child ∉ document.children parent) :
    (document.children parent).filter (· ≠ child) = document.children parent := by
  rw [List.filter_eq_self]
  intro id member
  rw [decide_eq_true_eq]
  rintro rfl
  exact strange member

theorem SameData.detach : SameData document (document.detach parent child) :=
  ⟨size_detach, fun _ => content?_detach, register_detach⟩

theorem SameData.attach : SameData document (document.attach parent child) :=
  ⟨size_attach, fun _ => content?_attach, register_attach⟩

theorem SameData.trans {last : Document} (first : SameData document result)
    (second : SameData result last) : SameData document last where
  size := second.size.trans first.size
  content? id := (second.content? id).trans (first.content? id)
  register := second.register.trans first.register

namespace Linked

/-- Taking a child down from its parent frees it. -/
theorem freed_detach (linked : document.Linked) (owned : document.parent? child = some parent) :
    Freed document (document.detach parent child) child where
  toSameData := .detach
  children := by
    intro other
    have member := linked.childIff.2 owned
    rw [children_detach member]
    split
    · rename_i same
      subst same
      rw [(linked.distinct parent).erase_eq_filter]
      exact List.filter_congr fun id _ => by by_cases here : id = child <;> simp [here]
    · rename_i different
      have strange : child ∉ document.children other := by
        intro inside
        exact different (Option.some.inj (owned.symm.trans (linked.childIff.1 inside)))
      exact (filter_children_of_not_mem strange).symm
  orphan := by rw [parent?_detach (linked.childIff.2 owned), if_pos rfl]
  parent? := by
    intro id other
    rw [parent?_detach (linked.childIff.2 owned), if_neg (Ne.symm other)]

/-- A child that hangs nowhere is free. -/
theorem freed_self (linked : document.Linked) (orphan : document.parent? child = none) :
    Freed document document child where
  size := rfl
  content? _ := rfl
  register := rfl
  children := by
    intro parent
    refine (filter_children_of_not_mem fun member => ?_).symm
    rw [linked.childIff.1 member] at orphan
    cases orphan
  orphan := orphan
  parent? _ _ := rfl

/-- Appending frees the child and then hangs it up. -/
theorem append?_eq (linked : document.Linked) (inside : parent < document.size)
    (fits : child < document.size) : ∃ loose, Freed document loose child ∧
      document.append? parent child = some (loose.attach parent child) := by
  rw [Document.append?, if_pos ⟨inside, fits⟩]
  cases owned : document.parent? child with
  | none => exact ⟨document, linked.freed_self owned, rfl⟩
  | some old => exact ⟨document.detach old child, linked.freed_detach owned, rfl⟩

end Linked

/-- Hanging up a freed child completes its move. -/
theorem Freed.moved_attach {loose : Document} (freed : Freed document loose child)
    (inside : parent < document.size) (fits : child < document.size) :
    Moved document (loose.attach parent child) parent child where
  toSameData := freed.toSameData.trans .attach
  row := by rw [children_attach (freed.size ▸ inside), if_pos rfl, freed.children]
  rows := by
    intro other different
    rw [children_attach (freed.size ▸ inside), if_neg (Ne.symm different), freed.children]
  owned := by rw [parent?_attach (freed.size ▸ fits), if_pos rfl]
  parent? := by
    intro id different
    rw [parent?_attach (freed.size ▸ fits), if_neg (Ne.symm different), freed.parent? id different]

/-- What hangs below a child moves with it: everything there keeps its children and its content. -/
theorem Moved.sharesBelow (moved : Moved document result parent child) (linked : document.Linked)
    (outside : document.isInclusiveDescendantOf parent child = false) :
    document.SharesBelow result child := by
  have apart : ∀ id, id = child ∨ child ∈ document.ancestors id →
      result.children id = document.children id := by
    intro id within
    have different : id ≠ parent := by
      rintro rfl
      rw [isInclusiveDescendantOf_iff.2 within] at outside
      cases outside
    rw [moved.rows id different]
    apply filter_children_of_not_mem
    intro member
    -- a child of what hangs below it would be its own ancestor
    have above := linked.mem_ancestors_of_parent? (linked.childIff.1 member)
    rcases within with rfl | below
    · exact linked.not_mem_ancestors_self _ above
    · exact linked.not_mem_ancestors_self _ (linked.ancestors_trans below above)
  constructor
  · exact (apart child (.inl rfl)).symm
  · intro id below
    exact ⟨(apart id (.inr below)).symm, (moved.content? id).symm⟩

/-- Documents are the same when all their nodes and their registers are. -/
theorem eq_of_node? (nodes : ∀ id, result.node? id = document.node? id)
    (register : result.register = document.register) : result = document := by
  obtain ⟨table, entries⟩ := document
  obtain ⟨others, more⟩ := result
  obtain rfl : more = entries := register
  obtain rfl : others = table := Array.ext_getElem? nodes
  rfl

/-- Taking down an orphan that was hung up brings every node back, with all of its links. -/
theorem Linked.detach_attach (linked : document.Linked) (inside : parent < document.size)
    (fits : child < document.size) (orphan : document.parent? child = none) :
    (document.attach parent child).detach parent child = document := by
  have strange : child ∉ document.children parent := by
    intro member
    rw [linked.childIff.1 member] at orphan
    cases orphan
  have lonely := linked.alone orphan
  have member : child ∈ (document.attach parent child).children parent := by
    simp [children_attach inside]
  have apart : document.lastChild? parent ≠ some child := fun last =>
    strange (List.mem_of_getLast? last)
  have before : (document.attach parent child).previous? child = document.lastChild? parent := by
    rw [previous?_attach fits, if_pos rfl, lonely.1, Option.or_none]
  have after : (document.attach parent child).next? child = none := by
    rw [next?_attach fits, if_neg apart, lonely.2]
  have ending : ∀ {last}, document.lastChild? parent = some last → document.next? last = none := by
    intro last closing
    obtain ⟨front, place⟩ := List.getLast?_eq_some_iff.1 closing
    exact (linked.neighbours place).2
  apply eq_of_node?
  · intro id
    rw [node?_detach member, node?_attach, before, after, Option.map_map]
    cases found : document.node? id with
    | none => rfl
    | some node =>
        have hung : child = id → node.parent = none ∧ node.previous = none ∧ node.next = none := by
          rintro rfl
          simp only [Document.parent?, Document.previous?, Document.next?, found,
            Option.bind_some] at orphan lonely
          exact ⟨orphan, lonely⟩
        have last : document.lastChild? parent = some id → node.next = none := by
          intro closing
          simpa [Document.next?, found] using ending closing
        have row : parent = id → (node.children ++ [child]).erase child = node.children := by
          rintro rfl
          have absent : child ∉ node.children := by simpa [Document.children, found] using strange
          rw [List.erase_append_right _ absent, List.erase_cons_head, List.append_nil]
        obtain ⟨content, owner, children, previous, next⟩ := node
        grind
  · rw [register_detach, register_attach]

/-- Appending a child that the parent is not below moves it to the end of the row of the parent, with all that
hangs below it. Taking a child down takes it out of its row, and a node that is no child of the parent is left
where it is. Other rows only lose the child, other nodes keep their parents, and data and register stay. What
hung nowhere before it was appended is back there when it is taken down, with every link of the document. -/
theorem Reachable.effect_of_moves (reachable : Reachable document) (inside : parent < document.size)
    (fits : child < document.size) :
    (document.isInclusiveDescendantOf parent child = false →
      ∃ result, document.append? parent child = some result ∧ Moved document result parent child ∧
        document.SharesBelow result child ∧
        result.descendants child = document.descendants child) ∧
    (document.parent? child = some parent →
      ∃ result, document.remove? parent child = some result ∧ Freed document result child ∧
        ∀ other, other ≠ parent → result.children other = document.children other) ∧
    (child ∉ document.children parent → document.remove? parent child = some document) ∧
    (document.parent? child = none →
      ((document.append? parent child).bind fun result => result.remove? parent child) =
        some document) := by
  have linked := reachable.linked
  refine ⟨fun outside => ?_, fun owned => ?_, fun strange => ?_, fun orphan => ?_⟩
  · obtain ⟨loose, freed, appended⟩ := linked.append?_eq inside fits
    have moved := freed.moved_attach inside fits
    have shared := moved.sharesBelow linked outside
    have relinked := linked.append? outside appended
    exact ⟨_, appended, moved, shared, (shared.descendants_eq linked relinked (.inl rfl)).symm⟩
  · refine ⟨_, if_pos inside, linked.freed_detach owned, fun other different => ?_⟩
    rw [children_detach (linked.childIff.2 owned), if_neg (Ne.symm different)]
  · rw [remove?, if_pos inside, detach_of_not_mem strange]
  · rw [Document.append?, if_pos ⟨inside, fits⟩, orphan]
    show (document.attach parent child).remove? parent child = some document
    rw [remove?, size_attach, if_pos inside, linked.detach_attach inside fits orphan]

/-- The first item of a list goes to its end with its text, and an item that hangs nowhere comes and goes. -/
theorem effect_of_moves_in_list : ∃ document, Reachable document ∧ document.children 1 = [2, 3, 4] ∧
    (∃ result, document.append? 1 2 = some result ∧ result.children 1 = [3, 4, 2] ∧
      result.children 0 = [1] ∧ result.descendants 2 = [6]) ∧
    (∃ result, document.remove? 1 3 = some result ∧ result.children 1 = [2, 4] ∧
      result.children 2 = [6]) ∧
    document.remove? 1 6 = some document ∧
    ((document.append? 1 5).bind fun result => result.remove? 1 5) = some document := by
  have ran : (empty.run? [.createElement "ul" [], .createElement "li" [], .createElement "li" [],
      .createElement "li" [], .createElement "li" [], .createText "a", .append 0 1, .append 1 2,
      .append 1 3, .append 1 4, .append 2 6]).any (fun document => document.size = 7 ∧
        document.children 0 = [1] ∧ document.children 1 = [2, 3, 4] ∧ document.children 2 = [6] ∧
        document.descendants 2 = [6] ∧ document.parent? 3 = some 1 ∧ document.parent? 5 = none ∧
        document.isInclusiveDescendantOf 1 2 = false) = true := by decide
  obtain ⟨document, reachable, size, top, row, inner, below, owned, orphan, outside⟩ := exists_reachable ran
  have within : ∀ {id : NodeId}, id < 7 → id < document.size := fun small => size.symm ▸ small
  obtain ⟨result, appended, moved, -, descendants⟩ :=
    (reachable.effect_of_moves (within (by decide : 1 < 7)) (within (by decide : 2 < 7))).1 outside
  obtain ⟨less, removed, freed, others⟩ :=
    (reachable.effect_of_moves (within (by decide : 1 < 7)) (within (by decide : 3 < 7))).2.1 owned
  refine ⟨document, reachable, row, ⟨result, appended, ?_, ?_, descendants.trans below⟩,
    ⟨less, removed, ?_, (others 2 (by decide)).trans inner⟩, ?_, ?_⟩
  · rw [moved.row, row]
    rfl
  · rw [moved.rows 0 (by decide), top]
    rfl
  · rw [freed.children, row]
    rfl
  · exact (reachable.effect_of_moves (within (by decide : 1 < 7)) (within (by decide : 6 < 7))).2.2.1
      (by simp [row])
  · exact (reachable.effect_of_moves (within (by decide : 1 < 7)) (within (by decide : 5 < 7))).2.2.2
      orphan

end ElementQuery.Document

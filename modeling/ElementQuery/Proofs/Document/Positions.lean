/-
This file counts elements among their siblings, from the front and from the back.
-/

import ElementQuery.Document.Siblings
import ElementQuery.Proofs.Document.Preorder

namespace ElementQuery.Document

variable {document : Document} {kin : Kin} {id parent : NodeId} {before after : List NodeId}

/-- The element children of a parent with which an element is counted, in order. -/
def kindred (document : Document) (kin : Kin) (parent id : NodeId) : List NodeId :=
  match kin with
  | .any => document.elementChildren parent
  | .sameTag => (document.elementChildren parent).filter fun other => document.sameTag other id

/-- The positions of an element from the front and from the back, counted from one. An element
without a parent has none. -/
def positions? (document : Document) (kin : Kin) (id : NodeId) : Option (Nat × Nat) :=
  (document.parent? id).bind fun parent =>
    let siblings := document.kindred kin parent id
    (siblings.idxOf? id).map fun index => (index + 1, siblings.length - index)

def isFirst (document : Document) (kin : Kin) (id : NodeId) : Bool :=
  (document.positions? kin id).any fun found => found.1 == 1

def isLast (document : Document) (kin : Kin) (id : NodeId) : Bool :=
  (document.positions? kin id).any fun found => found.2 == 1

theorem positions?_of_parent?_eq_none (orphan : document.parent? id = none) :
    document.positions? kin id = none := by
  simp [positions?, orphan]

/-- Positions are counted from one on both sides. -/
theorem positions?_pos {found : Nat × Nat} (counted : document.positions? kin id = some found) :
    0 < found.1 ∧ 0 < found.2 := by
  simp only [positions?, Option.bind_eq_some_iff, Option.map_eq_some_iff] at counted
  obtain ⟨parent, _, index, place, rfl⟩ := counted
  obtain ⟨within, _⟩ := List.idxOf?_eq_some_iff.1 place
  exact ⟨Nat.succ_pos _, Nat.sub_pos_of_lt within⟩

theorem sameTag_self (element : document.isElement id = true) : document.sameTag id id = true := by
  obtain ⟨held, known⟩ := Option.isSome_iff_exists.1 element
  simp [sameTag, tag?, known, Text.sameLetters]

theorem Linked.nodup_elementChildren (linked : document.Linked) :
    (document.elementChildren parent).Nodup :=
  (linked.distinct parent).filter _

/-- Where an element stands in a row without repetitions is its place there. -/
theorem idxOf?_eq_some_iff_getElem? {nodes : List NodeId} (distinct : nodes.Nodup) {index : Nat} :
    nodes.idxOf? id = some index ↔ nodes[index]? = some id := by
  rw [List.idxOf?_eq_some_iff, List.getElem?_eq_some_iff]
  refine ⟨fun ⟨inside, found, _⟩ => ⟨inside, found⟩, fun ⟨inside, found⟩ => ⟨inside, found, ?_⟩⟩
  intro earlier before same
  have equal := distinct.getElem_inj_iff.1 (same.trans found.symm)
  omega

/-- Among all siblings, the position of an element child is its place in the row. -/
theorem Linked.positions?_of_place (linked : document.Linked) {index : Nat}
    (place : (document.elementChildren parent)[index]? = some id) :
    ∃ back, document.positions? .any id = some (index + 1, back) := by
  have member : id ∈ document.elementChildren parent := List.mem_of_getElem? place
  have owned := linked.childIff.1 (List.mem_filter.1 member).1
  have located : (document.elementChildren parent).idxOf? id = some index :=
    (idxOf?_eq_some_iff_getElem? linked.nodup_elementChildren).2 place
  rw [positions?, owned, Option.bind_some, kindred]
  dsimp only
  rw [located]
  exact ⟨_, rfl⟩

/-- The elements with which an element is counted. -/
def akin (document : Document) (kin : Kin) (id other : NodeId) : Bool :=
  document.isElement other &&
    match kin with
    | .any => true
    | .sameTag => document.sameTag other id

theorem kindred_eq_filter : document.kindred kin parent id =
    (document.children parent).filter (document.akin kin id) := by
  cases kin with
  | any =>
      rw [kindred, elementChildren]
      apply List.filter_congr
      intro other _
      simp [akin]
  | sameTag =>
      rw [kindred, elementChildren, List.filter_filter]
      apply List.filter_congr
      intro other _
      simp [akin, Bool.and_comm]

theorem akin_self (element : document.isElement id = true) : document.akin kin id id = true := by
  cases kin with
  | any => simp [akin, element]
  | sameTag => simp [akin, element, sameTag_self element]

/-- The positions of an element count the siblings before it and after it. -/
theorem Linked.positions?_eq (linked : document.Linked) (element : document.isElement id = true)
    (place : document.children parent = before ++ id :: after) :
    document.positions? kin id = some ((before.filter (document.akin kin id)).length + 1,
      (after.filter (document.akin kin id)).length + 1) := by
  have member : id ∈ document.children parent := by
    rw [place]
    simp
  have fresh : id ∉ before.filter (document.akin kin id) := by
    intro earlier
    have distinct := linked.distinct parent
    rw [place] at distinct
    have apart := (List.nodup_append.1 distinct).2.2
    exact apart id (List.mem_filter.1 earlier).1 id List.mem_cons_self rfl
  have found : (before.filter (document.akin kin id) ++
      id :: after.filter (document.akin kin id)).idxOf? id =
      some (before.filter (document.akin kin id)).length := by
    apply List.idxOf?_eq_some_iff.2
    refine ⟨by simp, by simp, ?_⟩
    intro place earlier
    rw [List.getElem_append_left earlier]
    intro same
    have inside := List.getElem_mem earlier
    rw [same] at inside
    exact fresh inside
  rw [positions?, linked.childIff.1 member, Option.bind_some, kindred_eq_filter, place,
    List.filter_append, List.filter_cons_of_pos (akin_self element)]
  dsimp only
  rw [found, Option.map_some, List.length_append, List.length_cons]
  congr 2
  omega

end ElementQuery.Document

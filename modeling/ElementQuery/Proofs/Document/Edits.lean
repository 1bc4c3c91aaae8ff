/-
This file says what every edit does to the nodes of a document, and that the links agree after any
edits that keep nodes from being appended below themselves.
-/

import ElementQuery.Document.Edit
import ElementQuery.Proofs.Document.Links

namespace ElementQuery

/-- The attributes of an element are changed; other contents have none. -/
def Content.mapAttributes (change : Attributes → Attributes) : Content → Content
  | .element held => .element { held with attributes := change held.attributes }
  | other => other

/-- The attribute names of an element are distinct, as they are after any insertions. -/
def Content.HasDistinctNames : Content → Prop
  | .element held => held.attributes.names.Nodup
  | _ => True

namespace Document

section Nodes

variable {document : Document} {parent child id other : NodeId} {change : Node → Node}

/-- An update reaches every node, and changes the one that it names. -/
theorem node?_update_eq_map :
    (document.update id change).node? other =
      (document.node? other).map fun node => if id = other then change node else node := by
  rw [node?_update]
  split
  · rfl
  · exact Option.map_id'.symm

/-- Every node after a child was hung up below a parent. -/
theorem node?_attach :
    (document.attach parent child).node? id = (document.node? id).map fun node =>
      { node with
        children := if parent = id then node.children ++ [child] else node.children
        parent := if child = id then some parent else node.parent
        previous := if child = id then (document.lastChild? parent).or node.previous
          else node.previous
        next := if document.lastChild? parent = some id then some child else node.next } := by
  unfold attach
  cases document.lastChild? parent <;>
    simp only [node?_update_eq_map, Option.map_map, Option.some.injEq] <;>
    refine congrArg (Option.map · _) (funext fun ⟨_, _, _, _, _⟩ => ?_) <;>
    grind

/-- Every node after a child was taken down from its parent. -/
theorem node?_detach (member : child ∈ document.children parent) :
    (document.detach parent child).node? id = (document.node? id).map fun node =>
      { node with
        children := if parent = id then node.children.erase child else node.children
        parent := if child = id then none else node.parent
        previous := if document.next? child = some id then document.previous? child
          else if child = id then none else node.previous
        next := if document.previous? child = some id then document.next? child
          else if child = id then none else node.next } := by
  unfold detach
  rw [if_pos (by simpa using member)]
  cases document.previous? child <;> cases document.next? child <;>
    simp only [node?_update_eq_map, Option.map_map, Option.some.injEq] <;>
    refine congrArg (Option.map · _) (funext fun ⟨_, _, _, _, _⟩ => ?_) <;>
    grind

theorem detach_of_not_mem (strange : child ∉ document.children parent) :
    document.detach parent child = document := by
  unfold detach
  rw [if_neg (by simpa using strange)]

/-- Changing the attributes of an element changes its content and nothing else. -/
theorem node?_putAttributes {element : Element} {attributes : Attributes}
    {edit : Attributes → Attributes} (held : document.element? id = some element)
    (edited : edit element.attributes = attributes) :
    (document.putAttributes id attributes).node? other = (document.node? other).map fun node =>
      if id = other then { node with content := node.content.mapAttributes edit } else node := by
  unfold putAttributes
  rw [node?_update_eq_map]
  cases found : document.node? other with
  | none => rfl
  | some node =>
      by_cases same : id = other
      · subst same
        have shape : node.content = .element element := by
          unfold element? content? at held
          rw [found] at held
          cases content : node.content <;> simp_all
        simp [shape, Content.mapAttributes, edited]
      · simp [same]

/-- A change of attributes reaches nothing when the node is no element. -/
theorem node?_map_of_element?_eq_none {edit : Attributes → Attributes}
    (other : NodeId) (held : document.element? id = none) :
    document.node? other = (document.node? other).map fun node =>
      if id = other then { node with content := node.content.mapAttributes edit } else node := by
  cases found : document.node? other with
  | none => rfl
  | some node =>
      by_cases same : id = other
      · subst same
        unfold element? content? at held
        rw [found] at held
        obtain ⟨content, _, _, _, _⟩ := node
        cases content <;> simp_all [Content.mapAttributes]
      · simp [same]

theorem node?_setAttribute {name value : String} :
    (document.setAttribute id name value).node? other = (document.node? other).map fun node =>
      if id = other then
        { node with content := node.content.mapAttributes fun held => (held.insert name value).2 }
      else node := by
  unfold setAttribute
  cases held : document.element? id with
  | none => exact node?_map_of_element?_eq_none other held
  | some element =>
      have put := @node?_putAttributes document id other element _
        (fun held => (held.insert name value).2) held rfl
      rw [← put]
      dsimp only
      split
      · cases (element.attributes.insert name value).1 <;> rfl
      · rfl

theorem node?_removeAttribute {name : String} :
    (document.removeAttribute id name).node? other = (document.node? other).map fun node =>
      if id = other then
        { node with content := node.content.mapAttributes fun held => (held.remove name).2 }
      else node := by
  unfold removeAttribute
  cases held : document.element? id with
  | none => exact node?_map_of_element?_eq_none other held
  | some element =>
      have put := @node?_putAttributes document id other element _
        (fun held => (held.remove name).2) held rfl
      rw [← put]
      dsimp only
      cases (element.attributes.remove name).1 with
      | none => rfl
      | some old =>
          dsimp only
          split <;> rfl

end Nodes

section Links

variable {document : Document} {parent child id : NodeId}

/-- A node of the table is not one that the table does not have. -/
theorem ne_of_node?_eq_none {missing : NodeId} (inside : id < document.size)
    (absent : document.node? missing = none) : id ≠ missing := by
  intro same
  obtain rfl := same
  exact absurd inside (Nat.not_lt.2 (node?_eq_none_iff.1 absent))

theorem children_attach (inside : parent < document.size) :
    (document.attach parent child).children id =
      if parent = id then document.children id ++ [child] else document.children id := by
  unfold children
  rw [node?_attach]
  cases found : document.node? id with
  | none => simp [ne_of_node?_eq_none inside found]
  | some node => by_cases same : parent = id <;> simp [same]

theorem parent?_attach (inside : child < document.size) :
    (document.attach parent child).parent? id =
      if child = id then some parent else document.parent? id := by
  unfold parent?
  rw [node?_attach]
  cases found : document.node? id with
  | none => simp [ne_of_node?_eq_none inside found]
  | some node => by_cases same : child = id <;> simp [same]

theorem previous?_attach (inside : child < document.size) :
    (document.attach parent child).previous? id =
      if child = id then (document.lastChild? parent).or (document.previous? id)
      else document.previous? id := by
  unfold previous?
  rw [node?_attach]
  cases found : document.node? id with
  | none => simp [ne_of_node?_eq_none inside found]
  | some node => by_cases same : child = id <;> simp [same]

theorem next?_attach (inside : id < document.size) :
    (document.attach parent child).next? id =
      if document.lastChild? parent = some id then some child else document.next? id := by
  unfold next?
  obtain ⟨node, found⟩ := Option.isSome_iff_exists.1 (node?_isSome_iff.2 inside)
  rw [node?_attach, found]
  rfl

theorem content?_attach :
    (document.attach parent child).content? id = document.content? id := by
  unfold content?
  rw [node?_attach, Option.map_map]
  rfl

theorem children_detach (member : child ∈ document.children parent) :
    (document.detach parent child).children id =
      if parent = id then (document.children id).erase child else document.children id := by
  unfold children
  rw [node?_detach member]
  cases document.node? id <;> by_cases same : parent = id <;> simp [same]

theorem parent?_detach (member : child ∈ document.children parent) :
    (document.detach parent child).parent? id =
      if child = id then none else document.parent? id := by
  unfold parent?
  rw [node?_detach member]
  cases document.node? id <;> by_cases same : child = id <;> simp [same]

theorem previous?_detach (member : child ∈ document.children parent) (inside : id < document.size) :
    (document.detach parent child).previous? id =
      if document.next? child = some id then document.previous? child
      else if child = id then none else document.previous? id := by
  unfold previous?
  obtain ⟨node, found⟩ := Option.isSome_iff_exists.1 (node?_isSome_iff.2 inside)
  rw [node?_detach member, found]
  rfl

theorem next?_detach (member : child ∈ document.children parent) (inside : id < document.size) :
    (document.detach parent child).next? id =
      if document.previous? child = some id then document.next? child
      else if child = id then none else document.next? id := by
  unfold next?
  obtain ⟨node, found⟩ := Option.isSome_iff_exists.1 (node?_isSome_iff.2 inside)
  rw [node?_detach member, found]
  rfl

theorem content?_detach :
    (document.detach parent child).content? id = document.content? id := by
  by_cases member : child ∈ document.children parent
  · unfold content?
    rw [node?_detach member, Option.map_map]
    rfl
  · rw [detach_of_not_mem member]

end Links

end Document

end ElementQuery

/-
This file shows that the register of ids holds the elements with an id and nothing else, whatever the
edits were, so that looking an id up finds the first such element of the tree.
-/

import ElementQuery.Proofs.Document.AttributeNames
import ElementQuery.Proofs.Document.Reachable
import ElementQuery.Proofs.Document.TreeOrder
import Mathlib.Data.List.Find

namespace ElementQuery

namespace Document

/-- The id that the content of a node gives it. -/
def idOf? (document : Document) (id : NodeId) : Option String :=
  (document.content? id).bind Content.id?

/-- The register agrees with the nodes: its entries are the ids of the elements, no element has two
attributes of one name, and the document node is no element. -/
structure Registered (document : Document) : Prop where
  entryIff : ∀ {name : String} {id : NodeId},
    (name, id) ∈ document.register ↔ document.idOf? id = some name
  distinctNames : ∀ {id : NodeId} {content : Content},
    document.content? id = some content → content.HasDistinctNames
  rootContent : document.content? root = some .document

section Steps

variable {document : Document} {parent child id other : NodeId}

/-- Edits of the links leave register and contents alone. -/
theorem Registered.of_sameContents {result : Document} (registered : document.Registered)
    (entries : result.register = document.register)
    (contents : ∀ id, result.content? id = document.content? id) : result.Registered where
  entryIff := by
    intro name id
    rw [entries, idOf?, contents]
    exact registered.entryIff
  distinctNames := by
    intro id content
    rw [contents]
    exact registered.distinctNames
  rootContent := by
    rw [contents]
    exact registered.rootContent

theorem register_attach : (document.attach parent child).register = document.register := by
  unfold attach
  cases document.lastChild? parent <;> rfl

theorem register_detach : (document.detach parent child).register = document.register := by
  unfold detach
  split
  · cases document.previous? child <;> cases document.next? child <;> rfl
  · rfl

theorem Registered.detach (registered : document.Registered) :
    (document.detach parent child).Registered :=
  registered.of_sameContents register_detach fun _ => content?_detach

theorem Registered.append? {result : Document} (registered : document.Registered)
    (appended : document.append? parent child = some result) : result.Registered := by
  unfold Document.append? at appended
  split at appended
  case isFalse => cases appended
  case isTrue =>
    obtain rfl := Option.some.inj appended
    cases document.parent? child with
    | none => exact registered.of_sameContents register_attach fun _ => content?_attach
    | some old => exact registered.detach.of_sameContents register_attach fun _ => content?_attach

theorem content?_create {content : Content} :
    (document.create content).2.content? id =
      if id = document.size then some content else document.content? id := by
  unfold content?
  rw [node?_create]
  split <;> rfl

theorem register_create {content : Content} : (document.create content).2.register =
    document.register ++ (content.id?.map fun name => (name, document.size)).toList := by
  unfold create
  cases content.id? <;> simp [enroll]

theorem content?_size : document.content? document.size = none := by
  simp [content?, node?_eq_none_iff.2 (Nat.le_refl _)]

/-- A new node is registered under the id that it came with. -/
theorem Registered.create {content : Content} (registered : document.Registered)
    (distinct : content.HasDistinctNames) : (document.create content).2.Registered where
  entryIff := by
    intro name id
    rw [register_create, List.mem_append, registered.entryIff, idOf?, idOf?, content?_create]
    by_cases new : id = document.size
    · subst new
      simp [content?_size, eq_comm]
    · simp [new, Ne.symm new]
  distinctNames := by
    intro id held shape
    rw [content?_create] at shape
    split at shape
    · exact Option.some.inj shape ▸ distinct
    · exact registered.distinctNames shape
  rootContent := by
    rw [content?_create, if_neg]
    · exact registered.rootContent
    · intro same
      have absent := @content?_size document
      rw [← same, registered.rootContent] at absent
      cases absent

theorem element?_eq_some_iff {element : Element} :
    document.element? id = some element ↔ document.content? id = some (.element element) := by
  unfold element?
  cases document.content? id with
  | none => simp
  | some content => cases content <;> simp

theorem content?_setAttribute {name value : String} :
    (document.setAttribute id name value).content? other =
      (document.content? other).map fun content =>
        if id = other then content.mapAttributes fun held => (held.insert name value).2
        else content := by
  unfold content?
  rw [node?_setAttribute, Option.map_map, Option.map_map]
  apply congrArg (Option.map · _)
  funext node
  by_cases same : id = other <;> simp [same]

theorem content?_removeAttribute {name : String} :
    (document.removeAttribute id name).content? other =
      (document.content? other).map fun content =>
        if id = other then content.mapAttributes fun held => (held.remove name).2
        else content := by
  unfold content?
  rw [node?_removeAttribute, Option.map_map, Option.map_map]
  apply congrArg (Option.map · _)
  funext node
  by_cases same : id = other <;> simp [same]

/-- Setting the id strikes the old entry of the element out and enters the new one. -/
theorem mem_register_setAttribute {name value text : String} {node : NodeId} {element : Element}
    (held : document.element? id = some element) :
    (text, node) ∈ (document.setAttribute id name value).register ↔
      if name = "id" then
        ((text, node) ∈ document.register ∧ ¬(element.id? = some text ∧ node = id)) ∨
          (text = value ∧ node = id)
      else (text, node) ∈ document.register := by
  have old := element.attributes.insert_fst name value
  unfold setAttribute
  rw [held]
  dsimp only
  rw [old]
  by_cases named : name = "id"
  · subst named
    rw [if_pos rfl, if_pos rfl]
    change _ ↔ (_ ∧ ¬(element.attributes.get? "id" = some text ∧ node = id)) ∨ _
    cases element.attributes.get? "id" with
    | none => simp [enroll, putAttributes, update]
    | some before =>
        simp only [enroll, strike, putAttributes, update, List.mem_append, List.mem_filter,
          List.mem_singleton, bne_iff_ne, Prod.mk.injEq, Option.some.injEq]
        grind
  · rw [if_neg named, if_neg named]
    rfl

theorem mem_register_removeAttribute {name text : String} {node : NodeId} {element : Element}
    (held : document.element? id = some element) :
    (text, node) ∈ (document.removeAttribute id name).register ↔
      (text, node) ∈ document.register ∧
        ¬(name = "id" ∧ element.id? = some text ∧ node = id) := by
  have old := element.attributes.remove_fst name
  unfold removeAttribute
  rw [held]
  dsimp only
  rw [old]
  by_cases named : name = "id"
  · subst named
    change _ ↔ _ ∧ ¬(_ ∧ element.attributes.get? "id" = some text ∧ node = id)
    cases element.attributes.get? "id" with
    | none => simp [putAttributes, update]
    | some before =>
        simp only [strike, putAttributes, update, if_true, List.mem_filter, bne_iff_ne,
          Option.some.injEq]
        grind
  · cases element.attributes.get? name <;> simp [named, putAttributes, update]

theorem idOf?_eq_id? {element : Element} (held : document.element? id = some element) :
    document.idOf? id = element.id? := by
  rw [idOf?, element?_eq_some_iff.1 held]
  rfl

theorem idOf?_setAttribute {name value : String} {element : Element}
    (held : document.element? id = some element) :
    (document.setAttribute id name value).idOf? other =
      if id = other ∧ name = "id" then some value else document.idOf? other := by
  rw [idOf?, idOf?, content?_setAttribute]
  by_cases same : id = other
  · subst same
    rw [element?_eq_some_iff.1 held]
    simp [Content.mapAttributes, Content.id?, Element.id?, Attributes.get?_insert]
  · simp [same]

theorem idOf?_removeAttribute {name : String} {element : Element}
    (held : document.element? id = some element) (distinct : element.attributes.names.Nodup) :
    (document.removeAttribute id name).idOf? other =
      if id = other ∧ name = "id" then none else document.idOf? other := by
  rw [idOf?, idOf?, content?_removeAttribute]
  by_cases same : id = other
  · subst same
    rw [element?_eq_some_iff.1 held]
    simp [Content.mapAttributes, Content.id?, Element.id?, Attributes.get?_remove distinct]
  · simp [same]

/-- A change of attributes that keeps names distinct keeps them so in every node. -/
theorem hasDistinctNames_mapAttributes {content : Content} {change : Attributes → Attributes}
    (kept : ∀ held : Attributes, held.names.Nodup → (change held).names.Nodup)
    (distinct : content.HasDistinctNames) : (content.mapAttributes change).HasDistinctNames := by
  cases content with
  | element held => exact kept _ distinct
  | document => trivial
  | text => trivial
  | comment => trivial

/-- An attribute that is set is registered if it is the id, and another leaves the register alone. -/
theorem Registered.setAttribute {name value : String} (registered : document.Registered) :
    (document.setAttribute id name value).Registered where
  entryIff := by
    intro text node
    cases held : document.element? id with
    | none =>
        unfold Document.setAttribute
        rw [held]
        exact registered.entryIff
    | some element =>
        rw [mem_register_setAttribute held, idOf?_setAttribute held, registered.entryIff,
          ← idOf?_eq_id? held]
        grind
  distinctNames := by
    intro node content shape
    rw [content?_setAttribute] at shape
    obtain ⟨held, found, rfl⟩ := Option.map_eq_some_iff.1 shape
    have distinct := registered.distinctNames found
    split
    · exact hasDistinctNames_mapAttributes (fun _ => Attributes.nodup_names_insert) distinct
    · exact distinct
  rootContent := by
    rw [content?_setAttribute, registered.rootContent]
    by_cases same : id = root <;> simp [same, Content.mapAttributes]

theorem Registered.removeAttribute {name : String} (registered : document.Registered) :
    (document.removeAttribute id name).Registered where
  entryIff := by
    intro text node
    cases held : document.element? id with
    | none =>
        unfold Document.removeAttribute
        rw [held]
        exact registered.entryIff
    | some element =>
        have distinct := registered.distinctNames (element?_eq_some_iff.1 held)
        rw [mem_register_removeAttribute held, idOf?_removeAttribute held distinct,
          registered.entryIff, ← idOf?_eq_id? held]
        grind
  distinctNames := by
    intro node content shape
    rw [content?_removeAttribute] at shape
    obtain ⟨held, found, rfl⟩ := Option.map_eq_some_iff.1 shape
    have distinct := registered.distinctNames found
    split
    · exact hasDistinctNames_mapAttributes (fun _ => Attributes.nodup_names_remove) distinct
    · exact distinct
  rootContent := by
    rw [content?_removeAttribute, registered.rootContent]
    by_cases same : id = root <;> simp [same, Content.mapAttributes]

end Steps

theorem registered_empty : empty.Registered where
  entryIff := by
    intro name id
    have absent : empty.idOf? id = none := by
      unfold idOf? content? node? empty
      cases id <;> simp [Content.id?]
    rw [absent]
    simp [empty]
  distinctNames := by
    intro id content shape
    unfold content? node? empty at shape
    cases id with
    | zero =>
        obtain rfl := Option.some.inj shape
        trivial
    | succ id => simp at shape
  rootContent := rfl

/-- An allowed edit keeps the register in agreement with the nodes. -/
theorem Registered.edit {document result : Document} {edit : Edit}
    (registered : document.Registered) (allowed : edit.Allowed document)
    (performed : edit.perform? document = some result) : result.Registered := by
  cases edit with
  | create content => exact Option.some.inj performed ▸ registered.create allowed
  | createElement tag pairs =>
      exact Option.some.inj performed ▸ registered.create (Attributes.nodup_names_ofPairs pairs)
  | createText data => exact Option.some.inj performed ▸ registered.create trivial
  | createComment data => exact Option.some.inj performed ▸ registered.create trivial
  | append parent child => exact registered.append? performed
  | remove parent child =>
      simp only [Edit.perform?, remove?, Option.ite_none_right_eq_some, Option.some.injEq]
        at performed
      exact performed.2 ▸ registered.detach
  | setAttribute id name value =>
      simp only [Edit.perform?, Option.ite_none_right_eq_some, Option.some.injEq] at performed
      exact performed.2 ▸ registered.setAttribute
  | removeAttribute id name =>
      simp only [Edit.perform?, Option.ite_none_right_eq_some, Option.some.injEq] at performed
      exact performed.2 ▸ registered.removeAttribute

theorem Reachable.registered {document : Document} (reachable : Reachable document) :
    document.Registered := by
  induction reachable with
  | empty => exact registered_empty
  | edit _ allowed performed inductionHypothesis =>
      exact inductionHypothesis.edit allowed performed

theorem idOf?_eq_attribute? {document : Document} {id : NodeId} :
    document.idOf? id = document.attribute? id "id" := by
  unfold idOf? attribute? element?
  cases document.content? id with
  | none => rfl
  | some content => cases content <;> rfl

/-- Looking an id up in the register finds what a walk through the tree would find. -/
theorem elementById?_eq_find? {document : Document} (linked : document.Linked)
    (registered : document.Registered) (name : String) :
    document.elementById? name =
      (document.descendants root).find? fun id => document.attribute? id "id" == some name := by
  have inside : ∀ id ∈ ((document.register.filter fun entry => entry.1 == name).map
      Prod.snd).filter document.isConnected, document.isInclusiveDescendantOf id root = true :=
    fun id member => (List.mem_filter.1 member).2
  rw [elementById?, linked.earliest?_eq_find? inside]
  have agree : ∀ id ∈ root :: document.descendants root,
      (((document.register.filter fun entry => entry.1 == name).map Prod.snd).filter
        document.isConnected).contains id = (document.attribute? id "id" == some name) := by
    intro id member
    have connected : document.isConnected id = true := linked.mem_subtree.1 member
    rw [Bool.eq_iff_iff, List.contains_iff_mem, List.mem_filter, beq_iff_eq,
      ← idOf?_eq_attribute?, ← registered.entryIff]
    simp [connected]
  have noElement : (document.attribute? root "id" == some name) = false := by
    rw [← idOf?_eq_attribute?, idOf?, registered.rootContent]
    rfl
  rw [List.find?_congr agree, List.find?_cons_of_neg (by simp [noElement])]

/-- In a reachable document, an id leads to the first element in tree order that has it below the
document node, and to none exactly when there is no such element. -/
theorem Reachable.elementById?_first {document : Document} (reachable : Reachable document)
    (name : String) :
    document.elementById? name = ((document.descendants root).find? fun id =>
        document.attribute? id "id" == some name) ∧
      (document.elementById? name = none ↔
        ∀ id ∈ document.descendants root, document.attribute? id "id" ≠ some name) := by
  rw [elementById?_eq_find? reachable.linked reachable.registered]
  refine ⟨rfl, ?_⟩
  simp

/-- Of two elements with one id, the younger one stands first in this tree and is found. -/
theorem elementById?_first_of_two : ∃ document, Reachable document ∧
    document.register = [("a", 1), ("a", 2)] ∧ document.elementById? "a" = some 2 ∧
    document.elementById? "b" = none := by
  have ran : (empty.run? [.createElement "p" [("id", "a")], .createElement "p" [("id", "b")],
      .setAttribute 2 "id" "a", .append 0 2, .append 0 1]).any (fun document =>
        document.register = [("a", 1), ("a", 2)] ∧ document.descendants root = [2, 1] ∧
        document.attribute? 1 "id" = some "a" ∧ document.attribute? 2 "id" = some "a") = true := by
    decide
  obtain ⟨document, reachable, entries, below, first, second⟩ := exists_reachable ran
  refine ⟨document, reachable, entries, ?_, ?_⟩
  · rw [(reachable.elementById?_first "a").1, below]
    simp [second]
  · refine (reachable.elementById?_first "b").2.2 fun id member => ?_
    rw [below] at member
    grind

end Document

end ElementQuery

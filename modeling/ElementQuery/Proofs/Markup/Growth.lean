/-
This file lets a row of trees grow from the pieces of a text as a document does, and shows that the
document that is loaded from the text looks like the row.
-/

import ElementQuery.Markup.Loader
import ElementQuery.Proofs.Document.Appended
import ElementQuery.Proofs.Document.Register
import ElementQuery.Proofs.Markup.Forest
import Mathlib.Logic.Function.Iterate

namespace ElementQuery

namespace Markup

/-- A growing row has the finished trees on its ground and the boughs that are still open, the innermost
first, each with what is finished below it. -/
structure Growth where
  ground : Forest := .empty
  boughs : List (Element × Forest) := []
deriving DecidableEq, Repr

namespace Growth

/-- The tag name of the innermost open element. -/
def tag? (growth : Growth) : Option String := growth.boughs.head?.map fun bough => bough.1.tag

/-- Finished trees are put below the innermost open element. -/
def put (growth : Growth) (forest : Forest) : Growth :=
  match growth.boughs with
  | [] => { growth with ground := growth.ground ++ forest }
  | (element, below) :: rest => { growth with boughs := (element, below ++ forest) :: rest }

/-- The innermost open element gets nothing more below it. -/
def close (growth : Growth) : Growth :=
  match growth.boughs with
  | [] => growth
  | (element, below) :: rest =>
      { growth with boughs := rest }.put (.single (.element element) below)

/-- An element is opened below the innermost open one. -/
def start (growth : Growth) (element : Element) : Growth :=
  { growth with boughs := (element, .empty) :: growth.boughs }

/-- A repeated element of a kind that has no place in itself closes the one before it. -/
def closeSibling (growth : Growth) (tag : String) : Growth :=
  if siblingTags.contains tag && growth.tag? == some tag then growth.close else growth

/-- The element of a start tag. -/
def elementOf (tag : String) (attributes : List (String × String)) : Element :=
  { Element.named tag with attributes := Attributes.ofPairs attributes }

/-- Content that is not markup is one text, or nothing. -/
def rawContent : List Char → Forest
  | [] => .empty
  | data => .leaf (.text (String.ofList data))

/-- A void, closed or raw element is finished at once; every other element stays open. -/
def startElement (growth : Growth) (tag : String) (attributes : List (String × String))
    (closed : Bool) (raw : Option (List Char)) : Growth :=
  let grown := growth.closeSibling tag
  let element := elementOf tag attributes
  if closed || isVoid tag then grown.put (.leaf (.element element))
  else match raw with
    | some data => grown.put (.single (.element element) (rawContent data))
    | none => grown.start element

/-- An end tag closes open elements up to the innermost one of its name, if there is one. -/
def endElement (growth : Growth) (tag : String) : Growth :=
  match growth.boughs.findIdx? fun bough => bough.1.tag == tag with
  | some index => close^[index + 1] growth
  | none => growth

/-- A piece of markup makes the row grow. -/
def place (growth : Growth) : Piece → Growth
  | .text data => growth.put (.leaf (.text (String.ofList (decode data))))
  | .comment data => growth.put (.leaf (.comment (String.ofList data)))
  | .skipped => growth
  | .startTag tag attributes closed raw => growth.startElement tag attributes closed raw
  | .endTag tag => growth.endElement tag

/-- Everything that is open is closed. -/
def whole (growth : Growth) : Forest := (close^[growth.boughs.length] growth).ground

end Growth

/-- The pieces of a text, without the warnings about them. -/
def cut (text : List Char) : List Piece := (pieces text).map Warned.value

/-- The row that grows from a text. -/
def planted (text : List Char) : Forest := ((cut text).foldl Growth.place {}).whole

end Markup

namespace Document

open Markup (Forest Growth)

variable {document changed : Document} {id parent target added : NodeId} {row path : List NodeId}
  {inner : Option NodeId} {growth : Growth} {forest : Forest} {content : Content}

/-- The path of open nodes of a document, the innermost first, looks like the boughs of a growing row:
the children of each are finished trees and then the next node of the path. -/
inductive Stands (document : Document) : Option NodeId → List NodeId → Growth → Prop
  | ground {inner : Option NodeId} {row : List NodeId} {ground : Forest}
      (placed : document.children root = row ++ inner.toList)
      (shown : document.Shows row ground) : Stands document inner [] ⟨ground, []⟩
  | bough {inner : Option NodeId} {id : NodeId} {path row : List NodeId} {element : Element}
      {below ground : Forest} {boughs : List (Element × Forest)}
      (held : document.content? id = some (.element element))
      (placed : document.children id = row ++ inner.toList)
      (shown : document.Shows row below)
      (outside : Stands document (some id) path ⟨ground, boughs⟩) :
      Stands document inner (id :: path) ⟨ground, (element, below) :: boughs⟩

namespace Stands

/-- What is finished below the innermost node is counted among its trees. -/
theorem put (stands : document.Stands (some id) path growth)
    (shown : document.Shows [id] forest) : document.Stands none path (growth.put forest) := by
  cases stands with
  | ground placed front =>
      refine .ground ?_ (front.append shown)
      rw [placed, Option.toList_none, List.append_nil]
      rfl
  | bough held placed front outside =>
      refine .bough held ?_ (front.append shown) outside
      rw [placed, Option.toList_none, List.append_nil]
      rfl

/-- The innermost node looks like a finished tree. -/
theorem close (stands : document.Stands none path growth) :
    document.Stands none (path.drop 1) growth.close := by
  cases stands with
  | ground placed shown => exact .ground placed shown
  | bough held placed shown outside =>
      rw [Option.toList_none, List.append_nil] at placed
      exact outside.put (.single held (placed ▸ shown))

theorem iterate_close (stands : document.Stands none path growth) (count : Nat) :
    document.Stands none (path.drop count) (Growth.close^[count] growth) := by
  induction count with
  | zero => exact stands
  | succ count inductionHypothesis =>
      rw [Function.iterate_succ_apply', ← List.drop_drop]
      exact inductionHypothesis.close

theorem length_eq (stands : document.Stands inner path growth) :
    path.length = growth.boughs.length := by
  induction stands with
  | ground => rfl
  | bough _ _ _ _ inductionHypothesis => simpa using inductionHypothesis

/-- When everything is closed, the children of the document node look like the whole row. -/
theorem whole (stands : document.Stands none path growth) :
    document.Shows (document.children root) growth.whole := by
  have closed := stands.iterate_close growth.boughs.length
  rw [← stands.length_eq, List.drop_length, stands.length_eq] at closed
  unfold Growth.whole
  cases shape : Growth.close^[growth.boughs.length] growth with
  | mk ground boughs =>
      rw [shape] at closed
      cases closed with
      | ground placed shown =>
          rw [placed, Option.toList_none, List.append_nil]
          exact shown

/-- The innermost node is an element with the tag name of the innermost bough, or the document
node. -/
theorem tag?_head (stands : document.Stands inner path growth)
    (top : document.content? root = some .document) :
    document.tag? (path.head?.getD root) = growth.tag? := by
  cases stands with
  | ground placed shown =>
      show document.tag? root = none
      simp [tag?, element?, top]
  | @bough inner id path row element _ _ _ held placed shown outside =>
      show document.tag? id = some element.tag
      rw [tag?, element?_eq_some_iff.2 held]
      rfl

/-- An end tag leads out of as many nodes as boughs. -/
theorem outside?_eq (stands : document.Stands inner path growth) (tag : String) :
    Markup.Loading.outside? document tag path =
      (growth.boughs.findIdx? fun bough => bough.1.tag == tag).map fun index =>
        path.drop (index + 1) := by
  induction stands with
  | ground => rfl
  | @bough inner id path row element _ _ _ held placed shown outside inductionHypothesis =>
      have named : document.tag? id = some tag ↔ element.tag = tag := by
        rw [tag?, element?_eq_some_iff.2 held, Option.map_some, Option.some.injEq]
      rw [Markup.Loading.outside?, List.findIdx?_cons]
      by_cases same : element.tag = tag
      · rw [if_pos (named.2 same), if_pos (beq_iff_eq.2 same)]
        rfl
      · rw [if_neg fun equal => same (named.1 equal), if_neg fun equal => same (beq_iff_eq.1 equal),
          inductionHypothesis, Option.map_map]
        rfl

end Stands

/-- Nodes look as before when nothing has changed at those that are safe, and they and all nodes below
them are safe. -/
theorem Shows.of_same (safe : NodeId → Prop) (shown : document.Shows row forest)
    (contents : ∀ id < document.size, changed.content? id = document.content? id)
    (children : ∀ id, safe id → changed.children id = document.children id)
    (closed : ∀ id, safe id → ∀ child ∈ document.children id, safe child)
    (within : ∀ id ∈ row, safe id) : changed.Shows row forest := by
  induction shown with
  | empty => exact .empty
  | @tree id rest content below beside held _ _ inner outer =>
      have guarded := within id List.mem_cons_self
      have same := children id guarded
      refine .tree ?_ ?_ (outer fun other member => within other (List.mem_cons_of_mem _ member))
      · rw [contents id (lt_size_of_content? held)]
        exact held
      · rw [same]
        exact inner (closed id guarded)

section Changes

variable (linked : document.Linked)
  (contents : ∀ id < document.size, changed.content? id = document.content? id)
  (children : ∀ id, id ≠ target → changed.children id = document.children id)

include linked contents children

/-- What the target of a change does not hang below looks as before. -/
theorem Shows.of_change (shown : document.Shows row forest)
    (apart : ∀ id ∈ row, document.isInclusiveDescendantOf target id = false) :
    changed.Shows row forest := by
  refine shown.of_same (fun id => document.isInclusiveDescendantOf target id = false) contents
    (fun id safe => children id ?_) (fun _ safe _ => linked.apart_of_mem_children safe) apart
  rintro rfl
  rw [isInclusiveDescendantOf_iff.2 (.inl rfl)] at safe
  cases safe

/-- The children beside the one under which a change happens look as before. -/
theorem Shows.beside_change (shown : document.Shows row forest)
    (placed : document.children parent = row ++ [id])
    (under : document.isInclusiveDescendantOf target id = true) : changed.Shows row forest :=
  shown.of_change linked contents children fun _ => linked.apart_of_beside placed under

/-- The path around a node below which a change happens stands as before. -/
theorem Stands.around_change (stands : document.Stands (some id) path growth)
    (under : document.isInclusiveDescendantOf target id = true) :
    changed.Stands (some id) path growth := by
  induction path generalizing id growth with
  | nil =>
      cases stands with
      | ground placed shown =>
          have owned := linked.childIff.1
            (by simp [placed] : id ∈ document.children root)
          have different : root ≠ target := by
            rintro rfl
            exact linked.not_mem_ancestors_self root (linked.mem_ancestors_of_below owned under)
          refine .ground ?_ (shown.beside_change linked contents children placed under)
          rw [children root different, placed]
  | cons outer path inductionHypothesis =>
      cases stands with
      | bough held placed shown outside =>
          have owned := linked.childIff.1 (by simp [placed] : id ∈ document.children outer)
          have above := linked.mem_ancestors_of_below owned under
          have different : outer ≠ target := by
            rintro rfl
            exact linked.not_mem_ancestors_self outer above
          refine .bough ?_ ?_ (shown.beside_change linked contents children placed under)
            (inductionHypothesis outside (isInclusiveDescendantOf_iff.2 (.inr above)))
          · rw [contents outer (lt_size_of_content? held), held]
          · rw [children outer different, placed]

/-- A path stands as before around a new child of its innermost node. -/
theorem Stands.grow (stands : document.Stands none path growth)
    (innermost : target = path.head?.getD root)
    (placed : changed.children target = document.children target ++ [id]) :
    changed.Stands (some id) path growth := by
  have beside : ∀ {row}, document.children target = row → ∀ {forest}, document.Shows row forest →
      changed.Shows row forest := by
    rintro row rfl forest shown
    exact shown.of_change linked contents children fun _ => linked.apart_of_own_child
  cases stands with
  | ground front shown =>
      obtain rfl := innermost
      rw [Option.toList_none, List.append_nil] at front
      refine .ground ?_ (beside front shown)
      exact placed.trans (congrArg (· ++ [id]) front)
  | bough held front shown outside =>
      obtain rfl := innermost
      rw [Option.toList_none, List.append_nil] at front
      refine .bough ?_ ?_ (beside front shown)
        (outside.around_change linked contents children (isInclusiveDescendantOf_iff.2 (.inl rfl)))
      · rw [contents _ (lt_size_of_content? held)]
        exact held
      · exact placed.trans (congrArg (· ++ [id]) front)

omit contents in
/-- What a node on the path gains at the end, the document node gains as well. -/
theorem Stands.descendants_around (relinked : changed.Linked)
    (stands : document.Stands (some id) path growth)
    (under : document.isInclusiveDescendantOf target id = true)
    (grown : changed.descendants id = document.descendants id ++ [added]) :
    changed.descendants root = document.descendants root ++ [added] := by
  induction path generalizing id growth with
  | nil =>
      cases stands with
      | ground placed _ => exact linked.descendants_of_last relinked children placed under grown
  | cons outer path inductionHypothesis =>
      cases stands with
      | bough held placed _ outside =>
          have owned := linked.childIff.1 (by simp [placed] : id ∈ document.children outer)
          have above := linked.mem_ancestors_of_below owned under
          exact inductionHypothesis outside (isInclusiveDescendantOf_iff.2 (.inr above))
            (linked.descendants_of_last relinked children placed under grown)

omit contents in
/-- A new child of the innermost node comes last in document order. -/
theorem Stands.descendants_root (relinked : changed.Linked)
    (stands : document.Stands none path growth) (innermost : target = path.head?.getD root)
    (placed : changed.children target = document.children target ++ [added])
    (childless : changed.children added = []) :
    changed.descendants root = document.descendants root ++ [added] := by
  have grown := linked.descendants_of_target relinked children placed childless
  cases stands with
  | ground _ _ =>
      obtain rfl := innermost
      exact grown
  | bough _ _ _ outside =>
      obtain rfl := innermost
      exact outside.descendants_around linked children relinked
        (isInclusiveDescendantOf_iff.2 (.inl rfl)) grown

end Changes

end Document

namespace Markup

open Document (root)

variable {document : Document} {parent id : NodeId} {content : Content}

namespace Loading

/-- The node that is added to a document is new. -/
theorem children_addBelow (inside : parent < document.size) :
    (addBelow document parent content).2.children id =
      if parent = id then document.children id ++ [document.size] else document.children id := by
  have within : parent < (document.create content).2.size := by
    rw [Document.size_create]
    exact Nat.lt_succ_of_lt inside
  rw [addBelow, Document.children_attach within, Document.sameLinks_create.children]
  rfl

theorem content?_addBelow : (addBelow document parent content).2.content? id =
    if id = document.size then some content else document.content? id := by
  rw [addBelow, Document.content?_attach, Document.content?_create]

theorem parent?_addBelow : (addBelow document parent content).2.parent? id =
    if document.size = id then some parent else document.parent? id := by
  have within : document.size < (document.create content).2.size := by
    rw [Document.size_create]
    exact Nat.lt_succ_self _
  show ((document.create content).2.attach parent document.size).parent? id = _
  rw [Document.parent?_attach within, Document.sameLinks_create.parent?]

theorem size_addBelow : (addBelow document parent content).2.size = document.size + 1 := by
  rw [addBelow, Document.size_attach, Document.size_create]

theorem children_size : document.children document.size = [] := by
  have absent : document.node? document.size = none :=
    Document.node?_eq_none_iff.2 (Nat.le_refl _)
  rw [Document.children, absent]
  rfl

/-- A document to which a node is added is reached by two more edits. -/
theorem reachable_addBelow (reachable : Document.Reachable document)
    (inside : parent < document.size) (distinct : content.HasDistinctNames) :
    Document.Reachable (addBelow document parent content).2 := by
  have created : Document.Reachable (document.create content).2 :=
    @Document.Reachable.edit _ _ (.create content) reachable distinct rfl
  have linked := created.linked
  have childless : (document.create content).2.children document.size = [] := by
    rw [Document.sameLinks_create.children, children_size]
  refine @Document.Reachable.edit _ _ (.append parent document.size) created ?_ ?_
  · show (document.create content).2.isInclusiveDescendantOf parent document.size = false
    rw [← Bool.not_eq_true, Document.isInclusiveDescendantOf_iff]
    rintro (rfl | below)
    · exact Nat.lt_irrefl _ inside
    · obtain ⟨child, owned, -⟩ := linked.exists_child below
      have member := linked.childIff.2 owned
      rw [childless] at member
      exact absurd member List.not_mem_nil
  · have orphan : (document.create content).2.parent? document.size = none := by
      rw [Document.sameLinks_create.parent?, Document.parent?,
        Document.node?_eq_none_iff.2 (Nat.le_refl _)]
      rfl
    show (document.create content).2.append? parent document.size = _
    rw [Document.append?, if_pos, orphan]
    · rfl
    · rw [Document.size_create]
      exact ⟨Nat.lt_succ_of_lt inside, Nat.lt_succ_self _⟩

end Loading

/-- While a document is loaded, it looks like the row that grows from the same pieces, and its nodes are in
document order as they were made. -/
structure Loading.Follows (loading : Loading) (growth : Growth) : Prop where
  reachable : loading.document.Reachable
  top : loading.document.parent? root = none
  stands : loading.document.Stands none loading.unclosed growth
  inOrder : loading.document.descendants root = List.range' 1 (loading.document.size - 1)

namespace Loading.Follows

variable {loading : Loading} {growth : Growth}

theorem rootContent (follows : loading.Follows growth) :
    loading.document.content? root = some .document :=
  follows.reachable.registered.rootContent

theorem innermost_lt_size (follows : loading.Follows growth) :
    loading.innermost < loading.document.size := by
  unfold innermost
  have stands := follows.stands
  cases path : loading.unclosed with
  | nil => exact Document.lt_size_of_content? follows.rootContent
  | cons id rest =>
      rw [path] at stands
      cases stands with
      | bough held _ _ _ => exact Document.lt_size_of_content? held

/-- A node that is added stands open in its place, and it comes last in document order. -/
theorem grow (follows : loading.Follows growth) (distinct : content.HasDistinctNames) :
    (loading.add content).2.document.Reachable ∧
    (loading.add content).2.document.parent? root = none ∧
    (loading.add content).2.document.Stands (some loading.document.size) loading.unclosed growth ∧
    (loading.add content).2.document.content? loading.document.size = some content ∧
    (loading.add content).2.document.children loading.document.size = [] ∧
    (loading.add content).2.document.descendants root =
      List.range' 1 ((loading.add content).2.document.size - 1) := by
  have inside := follows.innermost_lt_size
  have linked := follows.reachable.linked
  have reachable : (loading.add content).2.document.Reachable :=
    reachable_addBelow follows.reachable inside distinct
  have others : ∀ id, id ≠ loading.innermost →
      (loading.add content).2.document.children id = loading.document.children id :=
    fun id other => (children_addBelow inside).trans (if_neg (Ne.symm other))
  have placed : (loading.add content).2.document.children loading.innermost =
      loading.document.children loading.innermost ++ [loading.document.size] :=
    (children_addBelow inside).trans (if_pos rfl)
  have childless : (loading.add content).2.document.children loading.document.size = [] :=
    (others _ (Nat.ne_of_gt inside)).trans children_size
  refine ⟨reachable, ?_, ?_, ?_, childless, ?_⟩
  · show (addBelow _ _ _).2.parent? root = none
    rw [parent?_addBelow, if_neg, follows.top]
    exact (Nat.ne_of_lt (Document.lt_size_of_content? follows.rootContent)).symm
  · refine follows.stands.grow linked (fun id known => ?_) others (rfl : loading.innermost = _) placed
    show (addBelow _ _ _).2.content? id = _
    rw [content?_addBelow, if_neg (Nat.ne_of_lt known)]
  · show (addBelow _ _ _).2.content? _ = _
    rw [content?_addBelow, if_pos rfl]
  · obtain ⟨count, size⟩ := Nat.exists_eq_add_one.2 (Nat.lt_of_le_of_lt (Nat.zero_le _) inside)
    have grown : (loading.add content).2.document.size = loading.document.size + 1 := size_addBelow
    rw [follows.stands.descendants_root linked others reachable.linked rfl placed childless,
      follows.inOrder, grown, size, Nat.add_sub_cancel, Nat.add_sub_cancel, List.range'_1_concat,
      Nat.add_comm]

/-- A node without anything below it is put into its place. -/
theorem add (follows : loading.Follows growth) (distinct : content.HasDistinctNames) :
    (loading.add content).2.Follows (growth.put (.leaf content)) := by
  obtain ⟨reachable, top, stands, held, childless, inOrder⟩ := follows.grow distinct
  refine ⟨reachable, top, stands.put (.single held ?_), inOrder⟩
  rw [childless]
  exact .empty

/-- An element that is added is opened. -/
theorem start (follows : loading.Follows growth) {element : Element}
    (distinct : element.attributes.names.Nodup) :
    ({ (loading.add (.element element)).2 with
      unclosed := loading.document.size :: loading.unclosed } : Loading).Follows
        (growth.start element) := by
  obtain ⟨reachable, top, stands, held, childless, inOrder⟩ :=
    @grow (.element element) _ _ follows distinct
  exact ⟨reachable, top, .bough held childless .empty stands, inOrder⟩

theorem close (follows : loading.Follows growth) :
    ({ loading with unclosed := loading.unclosed.drop 1 } : Loading).Follows growth.close :=
  ⟨follows.reachable, follows.top, follows.stands.close, follows.inOrder⟩

theorem closeSibling (follows : loading.Follows growth) (tag : String) :
    (loading.closeSibling tag).Follows (growth.closeSibling tag) := by
  have same : loading.document.tag? loading.innermost = growth.tag? :=
    follows.stands.tag?_head follows.rootContent
  unfold Loading.closeSibling Growth.closeSibling
  rw [same]
  split
  · exact follows.close
  · exact follows

theorem startElement (follows : loading.Follows growth) (tag : String)
    (attributes : List (String × String)) (closed : Bool) (raw : Option (List Char)) :
    (loading.startElement tag attributes closed raw).Follows
      (growth.startElement tag attributes closed raw) := by
  have distinct : (Growth.elementOf tag attributes).attributes.names.Nodup :=
    Attributes.nodup_names_ofPairs attributes
  have before := follows.closeSibling tag
  unfold Loading.startElement Growth.startElement
  dsimp only
  split
  · exact @add (.element _) _ _ before distinct
  · cases raw with
    | none => exact before.start distinct
    | some data =>
        cases data with
        | nil => exact @add (.element _) _ _ before distinct
        | cons c rest =>
            have text := @add (.text (String.ofList (c :: rest))) _ _ (before.start distinct) trivial
            exact text.close

theorem endElement (follows : loading.Follows growth) (tag : String) :
    (loading.endElement tag).value.Follows (growth.endElement tag) := by
  unfold Loading.endElement Growth.endElement
  rw [follows.stands.outside?_eq tag]
  cases growth.boughs.findIdx? fun bough => bough.1.tag == tag with
  | none => exact follows
  | some index =>
      exact ⟨follows.reachable, follows.top, follows.stands.iterate_close (index + 1), follows.inOrder⟩

theorem place (follows : loading.Follows growth) (piece : Piece) :
    (loading.place piece).value.Follows (growth.place piece) := by
  cases piece with
  | text data => exact follows.add trivial
  | comment data => exact follows.add trivial
  | skipped => exact follows
  | startTag tag attributes closed raw => exact follows.startElement tag attributes closed raw
  | endTag tag => exact follows.endElement tag

theorem placeAll (follows : loading.Follows growth) (pieces : List (Warned Piece)) :
    (loading.placeAll pieces).value.Follows
      ((pieces.map Warned.value).foldl Growth.place growth) := by
  induction pieces generalizing loading growth with
  | nil => exact follows
  | cons piece rest inductionHypothesis => exact inductionHypothesis (follows.place piece.value)

end Loading.Follows

/-- The loop follows the row that grows from the whole text. -/
theorem follows_placeAll (text : String) : (Loading.placeAll {} (pieces text.toList)).value.Follows
    ((cut text.toList).foldl Growth.place {}) := by
  have first : ({} : Loading).Follows {} := ⟨.empty, rfl, .ground rfl .empty, by decide⟩
  exact first.placeAll (pieces text.toList)

/-- A document is loaded by allowed edits, nothing is above its document node, and the children of that
look like the row that grows from the text. -/
theorem load_shows (text : String) : Document.Reachable (load text).value ∧
    (load text).value.parent? root = none ∧
    (load text).value.Shows ((load text).value.children root) (planted text.toList) := by
  have follows := follows_placeAll text
  exact ⟨follows.reachable, follows.top, follows.stands.whole⟩

/-- The links of every loaded document agree, and the walk below its document node takes all other nodes, each
once and in the order in which they were made. -/
theorem load_inOrder (text : String) : (load text).value.Linked ∧
    (load text).value.descendants root = List.range' 1 ((load text).value.size - 1) := by
  have follows := follows_placeAll text
  exact ⟨follows.reachable.linked, follows.inOrder⟩

end Markup

end ElementQuery

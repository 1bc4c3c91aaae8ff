/-
This file holds rows of trees, which are the shape of a document without the names of its nodes, and
says which markup is written for them.
-/

import ElementQuery.Markup.Writer
import ElementQuery.Proofs.Document.Preorder

namespace ElementQuery

namespace Markup

/-- A row of trees is empty, or it has a node with a row below it and a row beside it. -/
inductive Forest where
  | empty
  | tree (content : Content) (below beside : Forest)
deriving DecidableEq, Repr

namespace Forest

/-- A node with a row below it. -/
def single (content : Content) (below : Forest) : Forest := .tree content below .empty

/-- A node with nothing below it. -/
def leaf (content : Content) : Forest := single content .empty

def append : Forest → Forest → Forest
  | .empty, other => other
  | .tree content below beside, other => .tree content below (beside.append other)

instance : Append Forest := ⟨append⟩

variable {first second third below beside : Forest} {content : Content} {data more : String}

@[simp] theorem empty_append : .empty ++ first = first := rfl

@[simp] theorem tree_append : .tree content below beside ++ first =
    .tree content below (beside ++ first) := rfl

@[simp] theorem append_empty : first ++ .empty = first := by
  induction first with
  | empty => rfl
  | tree content below beside _ inductionHypothesis => rw [tree_append, inductionHypothesis]

theorem append_assoc : first ++ second ++ third = first ++ (second ++ third) := by
  induction first with
  | empty => rfl
  | tree content below beside _ inductionHypothesis =>
      simp only [tree_append, inductionHypothesis]

/-- The elements of a row at every depth. -/
def elements : Forest → List Element
  | .empty => []
  | .tree (.element element) below beside => element :: (below.elements ++ beside.elements)
  | .tree _ below beside => below.elements ++ beside.elements

/-- Something holds of every node of a row with the row below it. -/
def Everywhere (holds : Content → Forest → Prop) : Forest → Prop
  | .empty => True
  | .tree content below beside =>
      holds content below ∧ below.Everywhere holds ∧ beside.Everywhere holds

/-- What is written for a node around what is written for the nodes below it. -/
def writeAround (inner : List Char) : Content → List Char
  | .document => inner
  | .element element =>
      if isVoid element.tag then startTag element
      else startTag element ++ inner ++ endTag element
  | .text data => escape false data.toList
  | .comment data => "<!--".toList ++ data.toList ++ "-->".toList

/-- The trees of a row are written one after the other. -/
def write : Forest → List Char
  | .empty => []
  | .tree content below beside => writeAround below.write content ++ beside.write

@[simp] theorem write_append : (first ++ second).write = first.write ++ second.write := by
  induction first with
  | empty => rfl
  | tree content below beside _ inductionHypothesis =>
      rw [tree_append, write, write, inductionHypothesis, List.append_assoc]

/-- A text is put before a row and becomes one with a text at its beginning. -/
def joinText (data : String) : Forest → Forest
  | .tree (.text more) .empty rest => .tree (.text (data ++ more)) .empty rest
  | beside => .tree (.text data) .empty beside

/-- Texts that stand beside each other become one. -/
def merged : Forest → Forest
  | .empty => .empty
  | .tree (.text data) .empty beside => joinText data beside.merged
  | .tree content below beside => .tree content below.merged beside.merged

/-- A row begins with a text. -/
def beginsWithText : Forest → Bool
  | .tree (.text _) _ _ => true
  | _ => false

/-- No text stands beside a text. -/
def Parted : Forest → Prop
  | .empty => True
  | .tree content below beside =>
      ((leaf content).beginsWithText = true → beside.beginsWithText = false) ∧
        below.Parted ∧ beside.Parted

theorem write_joinText : (joinText data first).write = escape false data.toList ++ first.write := by
  unfold joinText
  split
  · simp [write, writeAround, escape]
  · rfl

/-- Merged texts are written as the single texts are. -/
theorem write_merged (forest : Forest) : forest.merged.write = forest.write := by
  fun_induction merged forest with
  | case1 => rfl
  | case2 data beside inductionHypothesis => rw [write_joinText, inductionHypothesis]; rfl
  | case3 content below beside other inner outer => rw [write, write, inner, outer]

end Forest

end Markup

namespace Document

open Markup (Forest)

/-- A row of nodes looks like a row of trees. -/
inductive Shows (document : Document) : List NodeId → Forest → Prop
  | empty : Shows document [] .empty
  | tree {id : NodeId} {rest : List NodeId} {content : Content} {below beside : Forest}
      (held : document.content? id = some content)
      (under : Shows document (document.children id) below)
      (aside : Shows document rest beside) :
      Shows document (id :: rest) (.tree content below beside)

/-- All that hangs below a node has the shape of a row of trees. -/
theorem Linked.exists_shows {document : Document} (linked : document.Linked) (id : NodeId) :
    ∃ forest, document.Shows (document.children id) forest := by
  induction id using linked.childInduction with
  | step id inductionHypothesis =>
      have row : ∀ nodes, nodes ⊆ document.children id → ∃ forest, document.Shows nodes forest := by
        intro nodes
        induction nodes with
        | nil => exact fun _ => ⟨.empty, .empty⟩
        | cons child rest others =>
            intro inside
            have member := inside List.mem_cons_self
            obtain ⟨below, under⟩ := inductionHypothesis child member
            obtain ⟨beside, aside⟩ := others fun other among => inside (List.mem_cons_of_mem _ among)
            obtain ⟨node, found⟩ := Option.isSome_iff_exists.1
              (node?_isSome_iff.2 (linked.child_lt_size member))
            have held : document.content? child = some node.content := by rw [content?, found, Option.map_some]
            exact ⟨_, .tree held under aside⟩
      exact row _ (List.Subset.refl _)

namespace Shows

variable {document : Document} {row more : List NodeId} {id : NodeId}
  {forest other : Forest} {content : Content}

theorem single (held : document.content? id = some content)
    (under : document.Shows (document.children id) forest) :
    document.Shows [id] (.single content forest) :=
  .tree held under .empty

theorem append (first : document.Shows row forest) (second : document.Shows more other) :
    document.Shows (row ++ more) (forest ++ other) := by
  induction first with
  | empty => exact second
  | tree held under _ _ inductionHypothesis => exact .tree held under inductionHypothesis

/-- Nodes look like one row of trees only. -/
theorem unique (first : document.Shows row forest) (second : document.Shows row other) :
    forest = other := by
  induction first generalizing other with
  | empty =>
      cases second
      rfl
  | tree held _ _ below beside =>
      cases second with
      | tree known under aside =>
          obtain rfl := Option.some.inj (held.symm.trans known)
          rw [below under, beside aside]

/-- The elements of the row are elements of the document. -/
theorem exists_of_mem_elements (shown : document.Shows row forest) {element : Element}
    (member : element ∈ forest.elements) :
    ∃ id, document.content? id = some (.element element) := by
  induction shown with
  | empty => exact absurd member List.not_mem_nil
  | @tree id rest content below beside held _ _ inner outer =>
      have deeper : element ∈ below.elements ++ beside.elements →
          ∃ id, document.content? id = some (.element element) := fun further =>
        (List.mem_append.1 further).elim inner outer
      cases content with
      | element found =>
          rcases List.mem_cons.1 member with rfl | further
          · exact ⟨id, held⟩
          · exact deeper further
      | document => exact deeper member
      | text data => exact deeper member
      | comment data => exact deeper member

/-- What holds everywhere in a row holds of each node among those that look like the row and below them, with
the row that its children look like. -/
theorem exists_below (linked : document.Linked) (shown : document.Shows row forest)
    {holds : Content → Forest → Prop} (every : forest.Everywhere holds)
    (inside : id ∈ row.flatMap fun child => child :: document.descendants child)
    (known : document.content? id = some content) :
    ∃ below, document.Shows (document.children id) below ∧ holds content below := by
  induction shown with
  | empty => exact absurd inside List.not_mem_nil
  | @tree top rest _ below beside held under _ inner outer =>
      rw [List.flatMap_cons, List.mem_append, List.mem_cons, linked.descendants_eq] at inside
      obtain ⟨here, deeper, further⟩ := every
      rcases inside with (same | beneath) | aside
      · subst same
        obtain rfl := Option.some.inj (held.symm.trans known)
        exact ⟨below, under, here⟩
      · exact inner deeper beneath
      · exact outer further aside

/-- What is written for nodes is written for the trees that they look like, when the levels suffice for
the deepest place in the table. -/
theorem flatMap_writeNode (linked : document.Linked) (shown : document.Shows row forest)
    {levels : Nat}
    (enough : ∀ id ∈ row, document.size ≤ levels + (document.ancestors id).length) :
    row.flatMap (Markup.writeNode document levels) = forest.write := by
  induction shown generalizing levels with
  | empty => rfl
  | @tree id rest content below beside held _ _ inner outer =>
      have bound := enough id List.mem_cons_self
      have short := linked.length_ancestors_lt (lt_size_of_content? held)
      obtain ⟨levels, rfl⟩ : ∃ fewer, levels = fewer + 1 := ⟨levels - 1, by omega⟩
      have beneath : (document.children id).flatMap (Markup.writeNode document levels) =
          below.write := by
        apply inner
        intro child member
        rw [linked.ancestors_of_parent? (linked.childIff.1 member), List.length_cons]
        omega
      have beyond := outer fun other member => enough other (List.mem_cons_of_mem _ member)
      obtain ⟨node, found, same⟩ := Option.map_eq_some_iff.1 held
      have children : document.children id = node.children := by simp [Document.children, found]
      rw [children] at beneath
      rw [List.flatMap_cons, beyond, Forest.write, Markup.writeNode, found]
      dsimp only
      rw [beneath, same]
      cases content <;> rfl

/-- For a document node at the top everything below it is written. -/
theorem outer_eq (linked : document.Linked) (top : document.parent? root = none)
    (held : document.content? root = some .document)
    (shown : document.Shows (document.children root) forest) :
    Markup.outer document root = String.ofList forest.write := by
  have inside := lt_size_of_content? held
  obtain ⟨levels, count⟩ := Nat.exists_eq_add_one.2 (Nat.lt_of_le_of_lt (Nat.zero_le _) inside)
  have beneath : (document.children root).flatMap (Markup.writeNode document levels) =
      forest.write := by
    apply shown.flatMap_writeNode linked
    intro child member
    rw [linked.ancestors_of_parent? (linked.childIff.1 member), List.length_cons, count,
      Linked.ancestors_of_parent?_eq_none top]
    rfl
  obtain ⟨node, found, same⟩ := Option.map_eq_some_iff.1 held
  have children : document.children root = node.children := by simp [Document.children, found]
  rw [children] at beneath
  rw [Markup.outer, count, Markup.writeNode, found]
  dsimp only
  rw [beneath, same]

end Shows

end Document

end ElementQuery

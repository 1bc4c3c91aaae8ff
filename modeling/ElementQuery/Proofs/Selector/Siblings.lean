/-
This file says what the pseudo-classes that count ask for: how many siblings an element has on one side of it,
all of them or those with its tag name.
-/

import ElementQuery.Proofs.Group.Positions
import ElementQuery.Selector.Matching

namespace ElementQuery.Selector

variable {document : Document} {id parent : NodeId} {element : Element} {kin : Kin}

/-- The elements on one side of an element with which it is counted. -/
def Side.siblings (document : Document) (kin : Kin) (id : NodeId) : Side → List NodeId
  | .front => (document.precedingSiblings id).filter (document.akin kin id)
  | .back => (document.followingSiblings id).filter (document.akin kin id)

/-- Among the children of a parent the two sides of an element leave room for the element itself. -/
theorem length_siblings_lt (linked : document.Linked) (owned : document.parent? id = some parent)
    (side : Side) : (side.siblings document kin id).length < document.size := by
  obtain ⟨before, after, place⟩ := linked.exists_place owned
  have row := linked.length_children_le parent
  rw [place, List.length_append, List.length_cons] at row
  cases side with
  | front =>
      have fewer := List.length_filter_le (document.akin kin id) before.reverse
      rw [Side.siblings, linked.precedingSiblings_eq place]
      rw [List.length_reverse] at fewer
      omega
  | back =>
      have fewer := List.length_filter_le (document.akin kin id) after
      rw [Side.siblings, linked.followingSiblings_eq place]
      omega

/-- The position of an element from either side is one more than the number of siblings on that side. -/
theorem positions?_eq_siblings (linked : document.Linked) (tagged : document.isElement id = true)
    (owned : document.parent? id = some parent) (kin : Kin) :
    document.positions? kin id = some ((Side.front.siblings document kin id).length + 1,
      (Side.back.siblings document kin id).length + 1) := by
  obtain ⟨before, after, place⟩ := linked.exists_place owned
  rw [linked.positions?_eq tagged place, Side.siblings, Side.siblings,
    linked.precedingSiblings_eq place, linked.followingSiblings_eq place, List.filter_reverse,
    List.length_reverse]

/-- Of an element with a parent, the pseudo-classes that count look at one side or at both. -/
theorem PseudoClass.holds_of_positions? (linked : document.Linked)
    (held : document.element? id = some element) {front back : Nat}
    (counted : document.positions? kin id = some (front + 1, back + 1)) :
    ((PseudoClass.first kin).holds document id element = true ↔ front = 0) ∧
    ((PseudoClass.last kin).holds document id element = true ↔ back = 0) ∧
    ((PseudoClass.only kin).holds document id element = true ↔
      (PseudoClass.first kin).holds document id element = true ∧
        (PseudoClass.last kin).holds document id element = true) := by
  rw [first_holds linked held, last_holds linked held, only_holds linked held]
  simp [Document.isFirst, Document.isLast, counted]

/-- The number of siblings on a side, and the element itself, are a position in the progression. -/
theorem PseudoClass.nth_holds_iff (linked : document.Linked)
    (small : document.size < Progression.positionLimit) (held : document.element? id = some element)
    (owned : document.parent? id = some parent) (side : Side) (kin : Kin) (progression : Progression) :
    (PseudoClass.nth side kin progression).holds document id element = true ↔ ∃ count : Nat,
      progression.step * count + progression.offset =
        1 + ((side.siblings document kin id).length : Int) := by
  have few := @length_siblings_lt _ _ _ kin linked owned side
  have tagged : document.isElement id = true := by simp [Document.isElement, held]
  have counted := positions?_eq_siblings linked tagged owned kin
  have position : (PseudoClass.nth side kin progression).holds document id element =
      progression.contains ((side.siblings document kin id).length + 1) := by
    rw [nth_holds linked held, counted]
    cases side <;> rfl
  rw [position, Progression.contains_iff_exists (Nat.lt_of_le_of_lt few small)]
  apply exists_congr
  intro count
  omega

/-- In every reachable document that positions suffice to count, the counting pseudo-classes ask how many
siblings an element with a parent has on one side, text and comments left out: for some number of steps the
progression meets the next number, or there is no such sibling. None of them holds of an element without a
parent. -/
theorem PseudoClass.holds_iff_siblings (reachable : Document.Reachable document)
    (small : document.size < Progression.positionLimit)
    (held : document.element? id = some element) :
    (∀ parent, document.parent? id = some parent →
      (∀ side kin progression, (PseudoClass.nth side kin progression).holds document id element = true ↔
        ∃ count : Nat, progression.step * count + progression.offset =
          1 + ((side.siblings document kin id).length : Int)) ∧
      ∀ kin, ((PseudoClass.first kin).holds document id element = true ↔
          (Side.front.siblings document kin id).length = 0) ∧
        ((PseudoClass.last kin).holds document id element = true ↔
          (Side.back.siblings document kin id).length = 0) ∧
        ((PseudoClass.only kin).holds document id element = true ↔
          (PseudoClass.first kin).holds document id element = true ∧
            (PseudoClass.last kin).holds document id element = true)) ∧
    (document.parent? id = none →
      (∀ side kin progression, (PseudoClass.nth side kin progression).holds document id element = false) ∧
      ∀ kin, (PseudoClass.first kin).holds document id element = false ∧
        (PseudoClass.last kin).holds document id element = false ∧
        (PseudoClass.only kin).holds document id element = false) := by
  have linked := reachable.linked
  have tagged : document.isElement id = true := by simp [Document.isElement, held]
  refine ⟨fun parent owned => ⟨PseudoClass.nth_holds_iff linked small held owned, fun kin =>
    PseudoClass.holds_of_positions? linked held (positions?_eq_siblings linked tagged owned kin)⟩,
    fun orphan => ?_⟩
  have uncounted : ∀ kin, document.positions? kin id = none := fun kin =>
    Document.positions?_of_parent?_eq_none orphan
  constructor
  · intro side kin progression
    rw [nth_holds linked held, uncounted]
    rfl
  · intro kin
    rw [first_holds linked held, last_holds linked held, only_holds linked held]
    simp [Document.isFirst, Document.isLast, uncounted]

/-- Among items whose tag names differ in their letters, texts and comments are not counted: the second of
three is met by falling steps from the front and by even positions from the back, and it is neither first nor
last of its kind. Nothing that counts holds of an element beside the document. -/
theorem PseudoClass.holds_iff_siblings_of_items : ∃ document, Document.Reachable document ∧
    document.size < Progression.positionLimit ∧
    document.element? 4 = some ⟨"LI", {}⟩ ∧ document.parent? 4 = some 1 ∧
    document.element? 7 = some ⟨"li", {}⟩ ∧ document.parent? 7 = none ∧
    Side.front.siblings document .sameTag 4 = [2] ∧ Side.back.siblings document .sameTag 4 = [6] ∧
    (PseudoClass.nth .front .sameTag ⟨-1, 3⟩).holds document 4 ⟨"LI", {}⟩ = true ∧
    (PseudoClass.nth .back .any ⟨2, 0⟩).holds document 4 ⟨"LI", {}⟩ = true ∧
    (PseudoClass.nth .back .any ⟨2, 1⟩).holds document 4 ⟨"LI", {}⟩ ≠ true ∧
    (PseudoClass.first .any).holds document 4 ⟨"LI", {}⟩ ≠ true ∧
    (PseudoClass.only .sameTag).holds document 4 ⟨"LI", {}⟩ ≠ true ∧
    (PseudoClass.nth .front .any ⟨1, 0⟩).holds document 7 ⟨"li", {}⟩ = false := by
  have ran : (Document.empty.run? [.createElement "ul" [], .createElement "li" [], .createText "a",
      .create (.element ⟨"LI", {}⟩), .createComment "b", .createElement "li" [], .createElement "li" [],
      .append 0 1, .append 1 2, .append 1 3, .append 1 4, .append 1 5, .append 1 6]).any
      (fun document => document.size = 8 ∧
        document.element? 4 = some ⟨"LI", {}⟩ ∧ document.parent? 4 = some 1 ∧
        document.element? 7 = some ⟨"li", {}⟩ ∧ document.parent? 7 = none ∧
        Side.front.siblings document .sameTag 4 = [2] ∧ Side.back.siblings document .sameTag 4 = [6] ∧
        Side.front.siblings document .any 4 = [2] ∧ Side.back.siblings document .any 4 = [6]) = true := by
    decide +kernel
  obtain ⟨document, reachable, size, held, owned, other, orphan, front, back, before, behind⟩ :=
    Document.exists_reachable ran
  have small : document.size < Progression.positionLimit := by
    rw [size]
    decide
  obtain ⟨counts, ends⟩ := (holds_iff_siblings reachable small held).1 1 owned
  refine ⟨document, reachable, small, held, owned, other, orphan, front, back, ?_, ?_, ?_, ?_, ?_, ?_⟩
  · rw [counts, front]
    exact ⟨1, by decide⟩
  · rw [counts, behind]
    exact ⟨1, by decide⟩
  · rw [Ne, counts, behind]
    rintro ⟨count, met⟩
    simp only [List.length_singleton] at met
    omega
  · rw [Ne, (ends .any).1, before]
    decide
  · rw [Ne, (ends .sameTag).2.2, (ends .sameTag).1, front]
    exact fun both => absurd both.1 (by decide)
  · exact ((holds_iff_siblings reachable small other).2 orphan).1 .front .any ⟨1, 0⟩

end ElementQuery.Selector

/-
This file shows that the selectors that are read leniently and those that are read strictly count elements alike.
The ones look for an element at an end of the row of its siblings, or count in one pass those with its tag name;
the others always count in one pass.
-/

import ElementQuery.Group.Walk
import ElementQuery.Proofs.Document.Positions
import ElementQuery.Selector.Matching

namespace ElementQuery

variable {document : Document} {id parent : NodeId} {kin : Kin}

section Passes

variable {test : NodeId → Bool} {children : List NodeId}

/-- One pass over different children finds the place of one of them among those that pass a test, and counts
these. An index and a total may be there before the pass. -/
theorem foldl_tally (distinct : children.Nodup) (index : Option Nat) (total : Nat) :
    children.foldl (fun (counted : Option Nat × Nat) child =>
        if test child then (if child = id then some (counted.2 + 1) else counted.1, counted.2 + 1)
        else counted) (index, total) =
      ((((children.filter test).idxOf? id).map (total + · + 1)).or index,
        total + (children.filter test).length) := by
  induction children generalizing index total with
  | nil => simp
  | cons child rest inductionHypothesis =>
      obtain ⟨fresh, distinct⟩ := List.nodup_cons.1 distinct
      rw [List.foldl_cons]
      by_cases counts : test child = true
      · rw [if_pos counts, inductionHypothesis distinct, List.filter_cons_of_pos counts, List.idxOf?_cons,
          List.length_cons]
        by_cases same : child = id
        · -- the child does not come again, so that its index stays
          have absent : (rest.filter test).idxOf? id = none :=
            List.idxOf?_eq_none_iff.2 fun again => fresh (same ▸ (List.mem_filter.1 again).1)
          simp [same, absent, Nat.add_comm, Nat.add_left_comm]
        · simp [same, Function.comp_def, Nat.add_comm, Nat.add_left_comm]
      · rw [if_neg counts, inductionHypothesis distinct, List.filter_cons_of_neg counts]

end Passes

namespace Group

/-- The place among the children with the same tag name is the position from the front, and the number of these
children is the sum of both positions less one. -/
theorem ofTypePosition?_eq (linked : document.Linked) :
    ofTypePosition? document id = (document.positions? .sameTag id).map fun found =>
      (found.1, found.1 + found.2 - 1) := by
  unfold ofTypePosition? Document.positions?
  cases document.parent? id with
  | none => rfl
  | some parent =>
      rw [Option.bind_some, Option.bind_some, countOfType, foldl_tally linked.nodup_elementChildren,
        Document.kindred]
      dsimp only
      rw [Option.or_none, Option.map_map, Option.map_map]
      refine Option.map_congr fun index place => ?_
      obtain ⟨inside, -⟩ := List.idxOf?_eq_some_iff.1 place
      simp only [Function.comp_apply, Prod.mk.injEq]
      omega

/-- The first element child is the one whose position from the front is one. -/
theorem isFirstChild_eq (linked : document.Linked) : isFirstChild document id = document.isFirst .any id := by
  unfold isFirstChild Document.isFirst Document.positions? Document.firstElementChild?
  cases document.parent? id with
  | none => rfl
  | some parent =>
      have placed := @Document.idxOf?_eq_some_iff_getElem? id _ (@linked.nodup_elementChildren _ parent) 0
      rw [Option.any_some, Option.bind_some, Document.kindred, List.head?_eq_getElem?]
      dsimp only
      rw [Bool.eq_iff_iff, beq_iff_eq, ← placed]
      cases (document.elementChildren parent).idxOf? id <;> simp

/-- The last element child is the one whose position from the back is one. -/
theorem isLastChild_eq (linked : document.Linked) :
    isLastChild document id = document.isLast .any id := by
  unfold isLastChild Document.isLast Document.positions? Document.lastElementChild?
  cases document.parent? id with
  | none => rfl
  | some parent =>
      have placed := @Document.idxOf?_eq_some_iff_getElem? id _ (@linked.nodup_elementChildren _ parent)
        ((document.elementChildren parent).length - 1)
      rw [Option.any_some, Option.bind_some, Document.kindred, List.getLast?_eq_getElem?]
      dsimp only
      rw [Bool.eq_iff_iff, beq_iff_eq, ← placed]
      cases found : (document.elementChildren parent).idxOf? id with
      | none => simp
      | some index =>
          obtain ⟨inside, -⟩ := List.idxOf?_eq_some_iff.1 found
          simp
          omega

/-- Every argument that is not met by every position asks for the place among the children. -/
theorem Argument.picks_eq (linked : document.Linked) (argument : Argument) :
    argument.picks (document.elementChildren parent) id =
      ((document.elementChildren parent).idxOf? id).any fun index => argument.contains (index + 1) := by
  cases argument with
  | every | progression held => rfl
  | position k =>
      cases k with
      | zero => cases (document.elementChildren parent).idxOf? id <;> simp [picks, contains]
      | succ index =>
          have placed := @Document.idxOf?_eq_some_iff_getElem? id _
            (@linked.nodup_elementChildren _ parent) index
          rw [picks, Bool.eq_iff_iff, beq_iff_eq, ← placed]
          cases (document.elementChildren parent).idxOf? id <;> simp [contains]

namespace PseudoClass

theorem first_holds (linked : document.Linked) :
    (PseudoClass.first kin).holds document id = document.isFirst kin id := by
  cases kin with
  | any => exact isFirstChild_eq linked
  | sameTag =>
      rw [holds, ofTypePosition?_eq linked, Document.isFirst, Option.any_map]

theorem last_holds (linked : document.Linked) :
    (PseudoClass.last kin).holds document id = document.isLast kin id := by
  cases kin with
  | any => exact isLastChild_eq linked
  | sameTag =>
      rw [holds, ofTypePosition?_eq linked, Document.isLast, Option.any_map]
      cases counted : document.positions? .sameTag id with
      | none => rfl
      | some found =>
          have positive := Document.positions?_pos counted
          rw [Option.any_some, Option.any_some, Bool.eq_iff_iff, beq_iff_eq, beq_iff_eq]
          omega

/-- An only element is the first and the last. -/
theorem only_holds (linked : document.Linked) :
    (PseudoClass.only kin).holds document id = (document.isFirst kin id && document.isLast kin id) := by
  cases kin with
  | any => rw [holds, isFirstChild_eq linked, isLastChild_eq linked]
  | sameTag =>
      rw [holds, ofTypePosition?_eq linked, Document.isFirst, Document.isLast, Option.any_map]
      cases counted : document.positions? .sameTag id with
      | none => rfl
      | some found =>
          have positive := Document.positions?_pos counted
          rw [Option.any_some, Option.any_some, Option.any_some, Bool.eq_iff_iff, Bool.and_eq_true, beq_iff_eq,
            beq_iff_eq, beq_iff_eq]
          omega

/-- Among all siblings every position is met, even without a parent; otherwise the argument contains the
position from the front. -/
theorem nth_holds (linked : document.Linked) {argument : Argument}
    (counts : kin = .any → argument ≠ .every) :
    (PseudoClass.nth kin argument).holds document id =
      (document.positions? kin id).any fun found => argument.contains found.1 := by
  cases kin with
  | any =>
      have asked : (PseudoClass.nth .any argument).holds document id = (document.parent? id).any
          fun parent => argument.picks (document.elementChildren parent) id := by
        cases argument with
        | every => exact absurd rfl (counts rfl)
        | position k | progression held => rfl
      rw [asked, Document.positions?]
      cases document.parent? id with
      | none => rfl
      | some parent =>
          rw [Option.any_some, Option.bind_some, argument.picks_eq linked, Option.any_map]
          rfl
  | sameTag =>
      rw [holds, ofTypePosition?_eq linked, Option.any_map]

end PseudoClass

end Group

namespace Selector

variable {element : Element}

/-- The children that are of one kind with an element are those with which it is counted. -/
theorem kindred_eq_filter_sameKind (held : document.element? id = some element) :
    document.kindred kin parent id = (document.elementChildren parent).filter fun child =>
      (document.element? child).any (sameKind element kin) := by
  cases kin with
  | any =>
      refine (List.filter_eq_self.2 fun child member => ?_).symm
      obtain ⟨twin, known⟩ := Option.isSome_iff_exists.1 (List.mem_filter.1 member).2
      rw [known]
      rfl
  | sameTag =>
      refine List.filter_congr fun child _ => ?_
      cases known : document.element? child <;>
        simp [Document.sameTag, Document.tag?, sameKind, held, known]

/-- The places from both sides are the positions of the element. -/
theorem positions?_eq (linked : document.Linked) (held : document.element? id = some element) :
    positions? document id element kin = document.positions? kin id := by
  unfold positions? siblingPosition? Document.positions?
  cases document.parent? id with
  | none => rfl
  | some parent =>
      rw [Option.bind_some, Option.bind_some, foldl_tally linked.nodup_elementChildren,
        kindred_eq_filter_sameKind held]
      dsimp only
      rw [Option.or_none, Option.map_map, Option.map_map]
      refine Option.map_congr fun index place => ?_
      obtain ⟨inside, -⟩ := List.idxOf?_eq_some_iff.1 place
      simp only [Function.comp_apply, Prod.mk.injEq]
      omega

namespace PseudoClass

theorem first_holds (linked : document.Linked) (held : document.element? id = some element) :
    (PseudoClass.first kin).holds document id element = document.isFirst kin id := by
  rw [holds, positions?_eq linked held, Document.isFirst]

theorem last_holds (linked : document.Linked) (held : document.element? id = some element) :
    (PseudoClass.last kin).holds document id element = document.isLast kin id := by
  rw [holds, positions?_eq linked held, Document.isLast]

/-- An only element has position one from both sides. -/
theorem only_holds (linked : document.Linked) (held : document.element? id = some element) :
    (PseudoClass.only kin).holds document id element =
      (document.isFirst kin id && document.isLast kin id) := by
  rw [holds, positions?_eq linked held, Document.isFirst, Document.isLast]
  cases document.positions? kin id with
  | none => rfl
  | some found => rw [Option.any_some, Option.any_some, Option.some_beq_some]; rfl

theorem nth_holds (linked : document.Linked) (held : document.element? id = some element) (side : Side)
    (progression : Progression) : (PseudoClass.nth side kin progression).holds document id element =
      (document.positions? kin id).any fun found =>
        progression.contains (match side with | .front => found.1 | .back => found.2) := by
  cases side <;> rw [holds, positions?_eq linked held]

end PseudoClass

end Selector

end ElementQuery

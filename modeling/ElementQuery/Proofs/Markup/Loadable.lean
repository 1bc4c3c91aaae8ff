/-
This file says which rows of trees grow from texts: no name holds a character that ends it, no comment
holds its own end, no text is empty, and no element stands where its tag would have closed another.
-/

import ElementQuery.Proofs.Markup.Escaping
import ElementQuery.Proofs.Markup.Growth
import ElementQuery.Proofs.Text.Search

namespace ElementQuery.Markup

section Letters

theorem isAlpha_ascii : ∀ n < 128, (Char.ofNat n).isAlpha = true →
    inTagName (Char.ofNat n) = true ∧ (Char.ofNat n).toLower.isAlpha = true ∧
      inAttributeName (Char.ofNat n).toLower = true := by
  decide +kernel

/-- A letter may stand in a name, and so may its small letter. -/
theorem isAlpha_apart {c : Char} (letter : c.isAlpha = true) :
    inTagName c = true ∧ c.toLower.isAlpha = true ∧ inAttributeName c.toLower = true := by
  have ascii := Text.toNat_lt_of_isAlpha letter
  revert letter
  exact Text.forall_ascii isAlpha_ascii ascii

/-- The small letter of a character may stand where the character may. -/
theorem inAttributeName_toLower {c : Char} (inside : inAttributeName c = true) :
    inAttributeName c.toLower = true := by
  by_cases capital : c.isUpper = true
  · exact (isAlpha_apart (Text.isAlpha_of_isUpper capital)).2.2
  · rwa [Text.toLower_of_isUpper_eq_false (by simpa using capital)]

theorem inTagName_toLower {c : Char} (inside : inTagName c = true) : inTagName c.toLower = true := by
  by_cases capital : c.isUpper = true
  · have letter := (isAlpha_apart (Text.isAlpha_of_isUpper capital)).2.1
    exact (isAlpha_apart letter).1
  · rwa [Text.toLower_of_isUpper_eq_false (by simpa using capital)]

theorem inTagName_of_inAttributeName {c : Char} (inside : inAttributeName c = true) :
    inTagName c = true :=
  (Bool.and_eq_true_iff.1 inside).1

end Letters

/-- A tag name begins with a letter, and no character of it is a capital or ends the name. -/
structure IsTagName (tag : String) : Prop where
  start : ∀ c ∈ tag.toList.head?, c.isAlpha = true
  nonempty : tag.toList ≠ []
  inside : ∀ c ∈ tag.toList, inTagName c = true
  small : ∀ c ∈ tag.toList, c.isUpper = false

/-- No character of an attribute name is a capital or ends the name, which may be empty. -/
structure IsAttributeName (name : String) : Prop where
  inside : ∀ c ∈ name.toList, inAttributeName c = true
  small : ∀ c ∈ name.toList, c.isUpper = false

/-- Different attribute names are listed. -/
structure WellNamed (entries : List (String × String)) : Prop where
  names : ∀ entry ∈ entries, IsAttributeName entry.1
  distinct : (entries.map Prod.fst).Nodup

/-- An element can be read from a start tag. -/
structure Loadable (element : Element) : Prop where
  tag : IsTagName element.tag
  attributes : WellNamed element.attributes.entries

/-- The data of a comment does not hold the end of the comment. -/
def IsCommentData (data : List Char) : Prop := cutPast? "-->".toList data = none

/-- A row can grow below an element with a tag name, or below the document node. -/
inductive Forest.Grown : Option String → Forest → Prop
  | empty {parent : Option String} : Grown parent .empty
  | text {parent : Option String} {data : String} {beside : Forest} (nonempty : data.toList ≠ [])
      (aside : Grown parent beside) : Grown parent (.tree (.text data) .empty beside)
  | comment {parent : Option String} {data : String} {beside : Forest}
      (unended : IsCommentData data.toList) (aside : Grown parent beside) :
      Grown parent (.tree (.comment data) .empty beside)
  | element {parent : Option String} {element : Element} {below beside : Forest}
      (loadable : Loadable element) (childless : isVoid element.tag = true → below = .empty)
      (apart : siblingTags.contains element.tag = true → parent ≠ some element.tag)
      (under : Grown (some element.tag) below) (aside : Grown parent beside) :
      Grown parent (.tree (.element element) below beside)

namespace Forest.Grown

variable {parent : Option String} {first second : Forest}

theorem append (front : first.Grown parent) (back : second.Grown parent) :
    (first ++ second).Grown parent := by
  induction front with
  | empty => exact back
  | text nonempty _ inductionHypothesis => exact .text nonempty (inductionHypothesis back)
  | comment unended _ inductionHypothesis => exact .comment unended (inductionHypothesis back)
  | element loadable childless apart under _ _ inductionHypothesis =>
      exact .element loadable childless apart under (inductionHypothesis back)

theorem joinText {data : String} (nonempty : data.toList ≠ []) (row : first.Grown parent) :
    (Forest.joinText data first).Grown parent := by
  unfold Forest.joinText
  split
  · cases row with
    | text _ aside => exact .text (by simp [nonempty]) aside
  · exact .text nonempty row

/-- Each node of a row that has grown has grown somewhere. -/
theorem everywhere (row : first.Grown parent) :
    first.Everywhere fun content below => ∃ parent, (Forest.single content below).Grown parent := by
  induction row with
  | empty => trivial
  | @text parent _ _ nonempty _ inductionHypothesis =>
      exact ⟨⟨parent, .text nonempty .empty⟩, trivial, inductionHypothesis⟩
  | @comment parent _ _ unended _ inductionHypothesis =>
      exact ⟨⟨parent, .comment unended .empty⟩, trivial, inductionHypothesis⟩
  | @element parent _ _ _ loadable childless apart under _ inner outer =>
      exact ⟨⟨parent, .element loadable childless apart under .empty⟩, inner, outer⟩

/-- Merging texts leaves a row that can grow. -/
theorem merged (row : first.Grown parent) : first.merged.Grown parent := by
  induction row with
  | empty => exact .empty
  | text nonempty _ inductionHypothesis => exact inductionHypothesis.joinText nonempty
  | comment unended _ inductionHypothesis => exact .comment unended inductionHypothesis
  | element loadable childless apart _ _ under aside =>
      refine .element loadable (fun void => ?_) apart under aside
      rw [childless void]
      rfl

end Forest.Grown

/-- The open elements of a growing row could be read from start tags and have stayed open, and below each
of them a row has grown. -/
inductive Growth.Boughs : List (Element × Forest) → Prop
  | nil : Boughs []
  | cons {element : Element} {below : Forest} {rest : List (Element × Forest)}
      (loadable : Loadable element) (content : isVoid element.tag = false)
      (apart : siblingTags.contains element.tag = true →
        (rest.head?.map fun bough => bough.1.tag) ≠ some element.tag)
      (under : below.Grown (some element.tag)) (others : Boughs rest) :
      Boughs ((element, below) :: rest)

/-- On the ground and below every bough of a growing row a row has grown. -/
structure Growth.Steady (growth : Growth) : Prop where
  ground : growth.ground.Grown none
  boughs : Growth.Boughs growth.boughs

/-- A piece is as it is cut from a text. -/
def Piece.Sound : Piece → Prop
  | .text data => data ≠ []
  | .comment data => IsCommentData data
  | .skipped => True
  | .startTag tag attributes _ _ => Loadable ⟨tag, ⟨attributes⟩⟩
  | .endTag _ => True

namespace Growth

variable {growth : Growth} {forest : Forest} {tag : String} {attributes : List (String × String)}

@[simp] theorem tag?_put : (growth.put forest).tag? = growth.tag? := by
  obtain ⟨ground, boughs⟩ := growth
  cases boughs <;> rfl

/-- The element of a start tag has the name and the attributes of the tag. -/
theorem elementOf_eq (loadable : Loadable ⟨tag, ⟨attributes⟩⟩) :
    elementOf tag attributes = ⟨tag, ⟨attributes⟩⟩ := by
  have named := Text.lower_of_small loadable.tag.small
  rw [elementOf, Element.named, named, Attributes.ofPairs_of_nodup loadable.attributes.distinct]

namespace Steady

theorem put (steady : growth.Steady) (row : forest.Grown growth.tag?) :
    (growth.put forest).Steady := by
  obtain ⟨ground, boughs⟩ := growth
  cases boughs with
  | nil => exact ⟨steady.ground.append row, .nil⟩
  | cons bough rest =>
      cases steady.boughs with
      | cons loadable content apart under others =>
          exact ⟨steady.ground, .cons loadable content apart (under.append row) others⟩

theorem close (steady : growth.Steady) : growth.close.Steady := by
  obtain ⟨ground, boughs⟩ := growth
  cases boughs with
  | nil => exact steady
  | cons bough rest =>
      cases steady.boughs with
      | cons loadable content apart under others =>
          have outside : ({ ground, boughs := rest } : Growth).Steady := ⟨steady.ground, others⟩
          refine outside.put (.element loadable (fun void => ?_) apart under .empty)
          rw [content] at void
          cases void

theorem iterate_close (steady : growth.Steady) (count : Nat) : (Growth.close^[count] growth).Steady := by
  induction count with
  | zero => exact steady
  | succ count inductionHypothesis =>
      rw [Function.iterate_succ_apply']
      exact inductionHypothesis.close

theorem closeSibling (steady : growth.Steady) (tag : String) : (growth.closeSibling tag).Steady := by
  unfold Growth.closeSibling
  split
  · exact steady.close
  · exact steady

/-- Where a sibling has been closed, no element of the same name is open around the place. -/
theorem tag?_closeSibling (steady : growth.Steady) (repeats : siblingTags.contains tag = true) :
    (growth.closeSibling tag).tag? ≠ some tag := by
  unfold Growth.closeSibling
  split
  · rename_i closes
    have innermost : growth.tag? = some tag := beq_iff_eq.1 (Bool.and_eq_true_iff.1 closes).2
    obtain ⟨ground, boughs⟩ := growth
    cases boughs with
    | nil => cases innermost
    | cons bough rest =>
        obtain rfl := Option.some.inj innermost
        cases steady.boughs with
        | cons loadable content apart under others =>
            rw [Growth.close, tag?_put]
            exact apart repeats
  · rename_i stays
    intro innermost
    exact stays (Bool.and_eq_true_iff.2 ⟨repeats, beq_iff_eq.2 innermost⟩)

theorem rawContent (data : List Char) (parent : Option String) :
    (Growth.rawContent data).Grown parent := by
  cases data with
  | nil => exact .empty
  | cons c rest => exact .text (by simp) .empty

theorem startElement (steady : growth.Steady) (loadable : Loadable ⟨tag, ⟨attributes⟩⟩)
    (closed : Bool) (raw : Option (List Char)) :
    (growth.startElement tag attributes closed raw).Steady := by
  have before := steady.closeSibling tag
  have apart : siblingTags.contains tag = true → (growth.closeSibling tag).tag? ≠ some tag :=
    steady.tag?_closeSibling
  unfold Growth.startElement
  rw [elementOf_eq loadable]
  dsimp only
  split
  · exact before.put (.element loadable (fun _ => rfl) apart .empty .empty)
  · rename_i opens
    obtain ⟨-, content⟩ := Bool.or_eq_false_iff.1 (Bool.not_eq_true _ ▸ opens)
    cases raw with
    | some data =>
        refine before.put (.element loadable (fun void => ?_) apart (rawContent data _) .empty)
        rw [content] at void
        cases void
    | none => exact ⟨before.ground, .cons loadable content apart .empty before.boughs⟩

theorem place (steady : growth.Steady) {piece : Piece} (sound : piece.Sound) :
    (growth.place piece).Steady := by
  cases piece with
  | text data => exact steady.put (.text (by simpa using decode_ne_nil sound) .empty)
  | comment data =>
      have unended : IsCommentData data := sound
      exact steady.put (.comment (by simpa using unended) .empty)
  | skipped => exact steady
  | startTag tag attributes closed raw => exact steady.startElement sound closed raw
  | endTag tag =>
      unfold Growth.place Growth.endElement
      dsimp only
      split
      · exact steady.iterate_close _
      · exact steady

/-- Sound pieces make a steady row grow. -/
theorem foldl_place (steady : growth.Steady) {pieces : List Piece}
    (sound : ∀ piece ∈ pieces, piece.Sound) : (pieces.foldl Growth.place growth).Steady := by
  induction pieces generalizing growth with
  | nil => exact steady
  | cons piece rest inductionHypothesis =>
      exact inductionHypothesis (steady.place (sound piece List.mem_cons_self))
        fun other member => sound other (List.mem_cons_of_mem _ member)

theorem whole (steady : growth.Steady) : growth.whole.Grown none :=
  (steady.iterate_close _).ground

end Steady

end Growth

end ElementQuery.Markup

/-
This file says which shape every loaded document has: where elements may stand, what may hang below them, and
which characters and names they cannot have.
-/

import ElementQuery.Proofs.Markup.Pieces

namespace ElementQuery.Markup

section RawContent

variable {growth : Growth} {first second forest : Forest} {tag : String}
  {attributes : List (String × String)} {closed : Bool} {raw : Option (List Char)}

/-- Below an element whose content is not read as markup hangs nothing or one text, which is not empty. -/
def HoldsRaw (content : Content) (below : Forest) : Prop :=
  ∀ element, content = .element element → rawTags.contains element.tag = true →
    below = .empty ∨ ∃ data, data ≠ "" ∧ below = .leaf (.text data)

/-- A start tag of such an element is closed or brings the content. -/
def Piece.Fills : Piece → Prop
  | .startTag tag _ closed raw => rawTags.contains tag = true → closed = false → raw.isSome = true
  | _ => True

theorem isSome_readContent (rawTag : rawTags.contains tag = true) (text : List Char) :
    (readContent tag false text).value.1.isSome = true := by
  rw [readContent, rawTag]
  rfl

theorem fills_readStartTag (text : List Char) : (readStartTag text).value.1.Fills := by
  intro rawTag opened
  show (readContent _ _ _).value.1.isSome = true
  rw [opened]
  exact isSome_readContent rawTag _

theorem fills_readMarkup (text : List Char) : (readMarkup text).value.1.Fills := by
  unfold readMarkup
  split
  · unfold readDeclaration
    split <;> trivial
  · trivial
  · trivial
  · exact fills_readStartTag _

theorem Forest.Everywhere.append {holds : Content → Forest → Prop} (front : first.Everywhere holds)
    (back : second.Everywhere holds) : (first ++ second).Everywhere holds := by
  induction first with
  | empty => exact back
  | tree content below beside _ inductionHypothesis =>
      obtain ⟨here, deeper, aside⟩ := front
      exact ⟨here, deeper, inductionHypothesis aside⟩

/-- In a growing row the finished elements hold what they can, and those that are open have content that is
read as markup. -/
structure Growth.Filled (growth : Growth) : Prop where
  ground : growth.ground.Everywhere HoldsRaw
  boughs : ∀ bough ∈ growth.boughs,
    rawTags.contains bough.1.tag = false ∧ bough.2.Everywhere HoldsRaw

namespace Growth.Filled

theorem put (filled : growth.Filled) (row : forest.Everywhere HoldsRaw) :
    (growth.put forest).Filled := by
  obtain ⟨ground, boughs⟩ := growth
  cases boughs with
  | nil => exact ⟨filled.ground.append row, filled.boughs⟩
  | cons bough rest =>
      obtain ⟨⟨markup, under⟩, others⟩ := List.forall_mem_cons.1 filled.boughs
      exact ⟨filled.ground, List.forall_mem_cons.2 ⟨⟨markup, under.append row⟩, others⟩⟩

/-- What is closed was open, so that its content has been read as markup. -/
theorem close (filled : growth.Filled) : growth.close.Filled := by
  obtain ⟨ground, boughs⟩ := growth
  cases boughs with
  | nil => exact filled
  | cons bough rest =>
      obtain ⟨⟨markup, under⟩, others⟩ := List.forall_mem_cons.1 filled.boughs
      have outside : ({ ground, boughs := rest } : Growth).Filled := ⟨filled.ground, others⟩
      refine outside.put ⟨?_, under, trivial⟩
      rintro element ⟨⟩ rawTag
      rw [markup] at rawTag
      cases rawTag

theorem iterate_close (filled : growth.Filled) (count : Nat) : (Growth.close^[count] growth).Filled := by
  induction count with
  | zero => exact filled
  | succ count inductionHypothesis =>
      rw [Function.iterate_succ_apply']
      exact inductionHypothesis.close

theorem closeSibling (filled : growth.Filled) (tag : String) : (growth.closeSibling tag).Filled := by
  unfold Growth.closeSibling
  split
  · exact filled.close
  · exact filled

theorem startElement (filled : growth.Filled) (loadable : Loadable ⟨tag, ⟨attributes⟩⟩)
    (fills : (Piece.startTag tag attributes closed raw).Fills) :
    (growth.startElement tag attributes closed raw).Filled := by
  have before := filled.closeSibling tag
  unfold Growth.startElement
  rw [elementOf_eq loadable]
  dsimp only
  split
  · exact before.put ⟨fun _ _ _ => .inl rfl, trivial, trivial⟩
  · rename_i opens
    obtain ⟨opened, -⟩ := Bool.or_eq_false_iff.1 (Bool.not_eq_true _ ▸ opens)
    cases raw with
    | none =>
        refine ⟨before.ground, List.forall_mem_cons.2 ⟨⟨?_, trivial⟩, before.boughs⟩⟩
        cases markup : rawTags.contains tag with
        | false => rfl
        | true => cases fills markup opened
    | some data =>
        cases data with
        | nil => exact before.put ⟨fun _ _ _ => .inl rfl, trivial, trivial⟩
        | cons c rest =>
            refine before.put ⟨fun _ _ _ => .inr ⟨_, ?_, rfl⟩, ⟨nofun, trivial, trivial⟩, trivial⟩
            simp

theorem place (filled : growth.Filled) {piece : Piece} (sound : piece.Sound) (fills : piece.Fills) :
    (growth.place piece).Filled := by
  cases piece with
  | text data | comment data => exact filled.put ⟨nofun, trivial, trivial⟩
  | skipped => exact filled
  | startTag tag attributes closed raw => exact filled.startElement sound fills
  | endTag tag =>
      unfold Growth.place Growth.endElement
      dsimp only
      split
      · exact filled.iterate_close _
      · exact filled

theorem foldl_place (filled : growth.Filled) {pieces : List Piece}
    (sound : ∀ piece ∈ pieces, piece.Sound) (fills : ∀ piece ∈ pieces, piece.Fills) :
    (pieces.foldl Growth.place growth).Filled := by
  induction pieces generalizing growth with
  | nil => exact filled
  | cons piece rest inductionHypothesis =>
      obtain ⟨here, others⟩ := List.forall_mem_cons.1 sound
      obtain ⟨content, contents⟩ := List.forall_mem_cons.1 fills
      exact inductionHypothesis (filled.place here content) others contents

end Growth.Filled

/-- In the row that grows from a text every raw element holds what it can. -/
theorem holdsRaw_planted (text : List Char) : (planted text).Everywhere HoldsRaw := by
  have first : ({} : Growth).Filled := ⟨trivial, nofun⟩
  have filled := first.foldl_place (sound_of_mem_cut text)
    (forall_mem_cut (fun _ _ => trivial) (fun rest _ => fills_readMarkup rest) text)
  exact (filled.iterate_close _).ground

end RawContent

section Documents

variable {document : Document} {row : List NodeId} {forest : Forest} {id : NodeId}

/-- An element of a loaded document: it does not stand directly in one that its tag would have closed, it
holds what its kind may hold, and its names could be read. -/
structure WellShaped (document : Document) (id : NodeId) (element : Element) : Prop where
  apart : siblingTags.contains element.tag = true → ∀ parent, document.parent? id = some parent →
    document.tag? parent ≠ some element.tag
  childless : isVoid element.tag = true → document.children id = []
  raw : rawTags.contains element.tag = true → document.children id = [] ∨
    ∃ child data, document.children id = [child] ∧ document.content? child = some (.text data) ∧
      data ≠ ""
  start : ∃ c rest, element.tag.toList = c :: rest ∧ c.isLower = true
  tag : ∀ c ∈ element.tag.toList,
    c.isUpper = false ∧ Text.isBlank c = false ∧ c ≠ '>' ∧ c ≠ '/'
  names : ∀ name ∈ element.attributes.names, ∀ c ∈ name.toList,
    c.isUpper = false ∧ Text.isBlank c = false ∧ c ≠ '>' ∧ c ≠ '/' ∧ c ≠ '='
  distinct : element.attributes.names.Nodup

theorem inTagName_iff {c : Char} :
    inTagName c = true ↔ Text.isBlank c = false ∧ c ≠ '>' ∧ c ≠ '/' := by
  simp [inTagName, and_assoc]

theorem inAttributeName_iff {c : Char} :
    inAttributeName c = true ↔ Text.isBlank c = false ∧ c ≠ '>' ∧ c ≠ '/' ∧ c ≠ '=' := by
  simp [inAttributeName, inTagName_iff, and_assoc]

theorem IsTagName.exists_isLower {tag : String} (named : IsTagName tag) :
    ∃ c rest, tag.toList = c :: rest ∧ c.isLower = true := by
  obtain ⟨c, rest, shape⟩ := List.exists_cons_of_ne_nil named.nonempty
  have letter := named.start c (by rw [shape]; rfl)
  have small := named.small c (by rw [shape]; exact List.mem_cons_self)
  refine ⟨c, rest, shape, ?_⟩
  have either : (c.isUpper || c.isLower) = true := letter
  rwa [small, Bool.false_or] at either

theorem eq_nil_of_shows (shown : document.Shows row .empty) : row = [] := by
  cases shown
  rfl

theorem exists_child_of_shows {content : Content} (shown : document.Shows row (.leaf content)) :
    ∃ child, row = [child] ∧ document.content? child = some content := by
  cases shown with
  | @tree child rest _ _ _ held under aside =>
      obtain rfl := eq_nil_of_shows aside
      exact ⟨child, rfl, held⟩

/-- Among nodes that look like a grown row, no element stands where its tag would have closed the one
around it. -/
theorem apart_of_mem (shown : document.Shows row forest) {parent : Option String}
    (grown : forest.Grown parent) (member : id ∈ row) {element : Element}
    (held : document.content? id = some (.element element))
    (repeats : siblingTags.contains element.tag = true) : parent ≠ some element.tag := by
  induction shown with
  | empty => exact absurd member List.not_mem_nil
  | @tree top rest content below beside known under _ _ outer =>
      rcases List.mem_cons.1 member with rfl | further
      · obtain rfl := Option.some.inj (known.symm.trans held)
        cases grown with
        | element _ _ apart _ _ => exact apart repeats
      · cases grown with
        | text _ aside | comment _ aside | element _ _ _ _ aside => exact outer aside further

/-- No loaded element hangs directly below one that its tag would have closed. -/
theorem apart_of_load {text : String} {outer : NodeId} {element : Element}
    (known : (load text).value.content? id = some (.element element))
    (repeats : siblingTags.contains element.tag = true)
    (owned : (load text).value.parent? id = some outer) :
    (load text).value.tag? outer ≠ some element.tag := by
  intro same
  obtain ⟨around, found, title⟩ := Option.map_eq_some_iff.1 same
  obtain ⟨beneath, looks, _, trunk⟩ := exists_below_of_load (grown_planted text.toList).everywhere
    (Document.element?_eq_some_iff.1 found) nofun
  have member := (follows_placeAll text).reachable.linked.childIff.2 owned
  cases trunk with
  | element _ _ _ under _ => exact apart_of_mem looks under member known repeats (congrArg some title)

/-- In the document that is loaded from a text, whatever it is, no text is empty and every element is well
shaped. -/
theorem load_wellShaped (text : String) :
    (∀ id data, (load text).value.content? id = some (.text data) → data ≠ "") ∧
    ∀ id element, (load text).value.element? id = some element →
      WellShaped (load text).value id element := by
  have grown := (grown_planted text.toList).everywhere
  constructor
  · intro id data known
    obtain ⟨below, -, parent, row⟩ := exists_below_of_load grown known nofun
    cases row with
    | text nonempty _ => simpa using nonempty
  · intro id element held
    have known := Document.element?_eq_some_iff.1 held
    obtain ⟨below, shown, parent, row⟩ := exists_below_of_load grown known nofun
    obtain ⟨content, filled, holds⟩ := exists_below_of_load (holdsRaw_planted text.toList) known nofun
    obtain rfl := shown.unique filled
    cases row with
    | element loadable childless _ _ _ =>
        obtain ⟨named, attributes⟩ := loadable
        refine ⟨fun repeats _ owned => apart_of_load known repeats owned, ?_, ?_, named.exists_isLower,
          ?_, ?_, attributes.distinct⟩
        · intro void
          obtain rfl := childless void
          exact eq_nil_of_shows shown
        · intro rawTag
          rcases holds element rfl rawTag with rfl | ⟨data, nonempty, rfl⟩
          · exact .inl (eq_nil_of_shows shown)
          · obtain ⟨child, only, text⟩ := exists_child_of_shows shown
            exact .inr ⟨child, data, only, text, nonempty⟩
        · exact fun c member => ⟨named.small c member, inTagName_iff.1 (named.inside c member)⟩
        · intro name member c inside
          obtain ⟨entry, listed, rfl⟩ := List.mem_map.1 member
          have title := attributes.names entry listed
          exact ⟨title.small c inside, inAttributeName_iff.1 (title.inside c inside)⟩

end Documents

end ElementQuery.Markup

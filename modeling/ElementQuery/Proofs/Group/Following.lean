/-
This file tells which elements a step leads to: those in the places of its combinator that meet its
compound and its pseudo-classes.
-/

import ElementQuery.Proofs.Common.Positions
import ElementQuery.Proofs.Text.Search

namespace ElementQuery

namespace Document

variable {document : Document} {id other : NodeId} {tag : String}

theorem isElement_of_hasTag (tagged : document.hasTag id tag = true) :
    document.isElement id = true := by
  cases held : document.element? id with
  | none => simp [hasTag, held] at tagged
  | some element => simp [isElement, held]

/-- The star stands for every tag name. -/
theorem hasTag_star : document.hasTag id "*" = document.isElement id := by
  unfold hasTag isElement
  cases document.element? id with
  | none => rfl
  | some element => simp [Element.hasTag]

/-- Elements with the same tag name have it in common with every tag name that is asked for. -/
theorem hasTag_of_sameTag (same : document.sameTag id other = true) :
    document.hasTag id tag = document.hasTag other tag := by
  unfold sameTag tag? at same
  unfold hasTag
  cases held : document.element? id with
  | none => simp [held] at same
  | some element =>
      cases known : document.element? other with
      | none => simp [held, known] at same
      | some twin =>
          simp only [held, known, Option.map_some, Text.sameLetters_iff] at same
          simp [Element.hasTag, Text.sameLetters, same]

end Document

namespace Group

variable {document : Document} {step : Step} {previous : List NodeId} {id other : NodeId}

/-- Every value has the empty text at its beginning, at its end and inside, but is not equal to it. -/
theorem Operator.holds_empty (operator : Operator) (actual : String) :
    (actual != "" && operator.holds actual "") = (operator != .exact && actual != "") := by
  cases operator with
  | exact => cases same : actual == "" <;> simp [Operator.holds, bne, same]
  | beginning | ending => simp [Operator.holds]
  | substring =>
      have inside : Text.occurs [] actual.toList = true := by
        cases actual.toList <;> simp [Text.occurs]
      simp [Operator.holds, inside]

/-- A text that is not empty is in no relation to the empty one. -/
theorem Operator.holds_of_empty (operator : Operator) {value : String} (nonempty : value ≠ "") :
    operator.holds "" value = false := by
  have letters : value.toList ≠ [] := by simpa using nonempty
  cases operator with
  | exact => simpa [Operator.holds] using Ne.symm nonempty
  | beginning =>
      apply Bool.eq_false_iff.2
      intro before
      exact letters (List.prefix_nil.1 (List.isPrefixOf_iff_prefix.1 before))
  | ending =>
      apply Bool.eq_false_iff.2
      intro behind
      exact letters (List.suffix_nil.1 (List.isSuffixOf_iff_suffix.1 behind))
  | substring => simpa [Operator.holds, Text.occurs] using letters

/-- The nodes to which a combinator leads from a node. -/
def Combinator.places (document : Document) (id : NodeId) : Combinator → List NodeId
  | .descendant => document.descendants id
  | .child => document.children id
  | .adjacent => (document.nextElement? id).toList
  | .general => document.followingSiblings id

/-- A node on its own meets the compound and every pseudo-class of a step. -/
def Step.isMet (document : Document) (step : Step) (id : NodeId) : Bool :=
  (document.element? id).any step.compound.holds &&
    step.pseudos.all fun pseudo => pseudo.holds document id

/-- A progression stands at the beginning of a step to descendants or children that asks for a tag name
only, so that all siblings which are exchanged are in the places of the step. -/
def Step.ExchangesFirst (step : Step) : Prop :=
  ∀ index pseudo, step.pseudos[index]? = some pseudo → pseudo.exchange?.isSome = true →
    index = 0 ∧ (step.combinator = .descendant ∨ step.combinator = .child) ∧
      step.compound.id = none ∧ step.compound.classes = [] ∧ step.compound.attributes = []

/-- Whatever a combinator leads to has a parent. -/
theorem Combinator.parent?_of_mem_places (linked : document.Linked) {combinator : Combinator}
    (member : id ∈ combinator.places document other) : (document.parent? id).isSome = true := by
  cases combinator with
  | descendant =>
      obtain ⟨parent, owned, -⟩ := linked.mem_ancestors.1 (linked.mem_descendants.1 member)
      simp [owned]
  | child => simp [linked.childIff.1 member]
  | adjacent =>
      have found := List.mem_of_find?_eq_some (Option.mem_toList.1 member)
      obtain ⟨parent, -, owned⟩ := linked.parent?_of_mem_siblings (.inl found)
      simp [owned]
  | general =>
      obtain ⟨parent, -, owned⟩ := linked.parent?_of_mem_siblings (.inl member)
      simp [owned]

/-- The places of descendants and children hold all siblings of what they hold. -/
theorem Combinator.mem_places_of_sibling (linked : document.Linked) {combinator : Combinator}
    (downwards : combinator = .descendant ∨ combinator = .child) {earlier parent : NodeId}
    (member : other ∈ combinator.places document earlier)
    (owned : document.parent? other = some parent) (owns : document.parent? id = some parent) :
    id ∈ combinator.places document earlier := by
  rcases downwards with rfl | rfl
  · apply linked.mem_descendants.2
    apply linked.mem_ancestors.2
    obtain ⟨found, known, above⟩ := linked.mem_ancestors.1 (linked.mem_descendants.1 member)
    rw [owned] at known
    exact ⟨parent, owns, Option.some.inj known ▸ above⟩
  · have found := linked.childIff.1 member
    rw [owned] at found
    obtain rfl := Option.some.inj found
    exact linked.childIff.2 owns

/-- A step reaches the nodes in the places of its combinator that have its tag name. -/
theorem Step.mem_reach (noId : step.combinator = .descendant → step.compound.id = none) :
    id ∈ step.reach document previous ↔ ∃ earlier ∈ previous,
      id ∈ step.combinator.places document earlier ∧
        document.hasTag id step.compound.tag = true := by
  unfold reach
  cases way : step.combinator with
  | descendant =>
      show id ∈ step.reachBelow document previous ↔ _
      rw [reachBelow, noId way]
      simp [Document.elementsByTag, Combinator.places]
  | child =>
      simp only [List.mem_filter, List.mem_flatMap, Document.elementChildren, Combinator.places]
      constructor
      · intro given
        obtain ⟨⟨earlier, member, child, -⟩, tagged⟩ := given
        exact ⟨earlier, member, child, tagged⟩
      · intro given
        obtain ⟨earlier, member, child, tagged⟩ := given
        exact ⟨⟨earlier, member, child, Document.isElement_of_hasTag tagged⟩, tagged⟩
  | adjacent =>
      simp only [List.mem_filter, List.mem_filterMap, Combinator.places, Option.mem_toList]
      constructor
      · intro given
        obtain ⟨⟨earlier, member, next⟩, tagged⟩ := given
        exact ⟨earlier, member, next, tagged⟩
      · intro given
        obtain ⟨earlier, member, next, tagged⟩ := given
        exact ⟨⟨earlier, member, next⟩, tagged⟩
  | general =>
      simp only [List.mem_eraseDups, List.mem_filter, List.mem_flatMap, Combinator.places]
      constructor
      · intro given
        obtain ⟨⟨earlier, member, beside⟩, tagged⟩ := given
        exact ⟨earlier, member, beside, tagged⟩
      · intro given
        obtain ⟨earlier, member, beside, tagged⟩ := given
        exact ⟨⟨earlier, member, beside⟩, tagged⟩

/-- The reach and the demands that are left over meet the compound together. -/
theorem Step.mem_candidates (noId : step.combinator = .descendant → step.compound.id = none) :
    id ∈ (step.reach document previous).filter (step.passes document) ↔ ∃ earlier ∈ previous,
      id ∈ step.combinator.places document earlier ∧
        (document.element? id).any step.compound.holds = true := by
  rw [List.mem_filter, mem_reach noId]
  have split : (document.hasTag id step.compound.tag = true ∧ step.passes document id = true) ↔
      (document.element? id).any step.compound.holds = true := by
    unfold Document.hasTag passes
    cases held : document.element? id with
    | none => simp
    | some element =>
        have known : (step.combinator == .descendant || step.compound.idHolds element) =
            step.compound.idHolds element := by
          by_cases way : step.combinator = .descendant
          · simp [way, Compound.idHolds, noId way]
          · simp [way]
        simp only [Option.any_some, Compound.holds, known, Bool.and_eq_true, and_assoc]
  constructor
  · intro given
    obtain ⟨⟨earlier, member, place, tagged⟩, passed⟩ := given
    exact ⟨earlier, member, place, split.1 ⟨tagged, passed⟩⟩
  · intro given
    obtain ⟨earlier, member, place, held⟩ := given
    obtain ⟨tagged, passed⟩ := split.2 held
    exact ⟨⟨earlier, member, place, tagged⟩, passed⟩

/-- Pseudo-classes that exchange nothing are met one after the other or all at once. -/
theorem foldl_apply_eq_filter (document : Document) (pseudos : List PseudoClass)
    (candidates : List NodeId) (steady : ∀ pseudo ∈ pseudos, pseudo.exchange? = none) :
    pseudos.foldl (PseudoClass.apply document) candidates =
      candidates.filter fun id => pseudos.all fun pseudo => pseudo.holds document id := by
  induction pseudos generalizing candidates with
  | nil => exact (List.filter_eq_self.2 fun _ _ => rfl).symm
  | cons pseudo rest inductionHypothesis =>
      have first : pseudo.apply document candidates =
          candidates.filter fun id => pseudo.holds document id := by
        rw [PseudoClass.apply, steady pseudo List.mem_cons_self]
      rw [List.foldl_cons, first, inductionHypothesis _ fun other member =>
        steady other (List.mem_cons_of_mem _ member), List.filter_filter]
      simp only [List.all_cons, Bool.and_comm]

/-- The siblings at positions of a progression stand in the row of the parent's elements. -/
theorem mem_siblingsAt_iff {progression : Progression} :
    id ∈ siblingsAt document progression other ↔ ∃ parent before after,
      document.parent? other = some parent ∧
      document.elementChildren parent = before ++ id :: after ∧
      document.sameTag id other = true ∧ progression.contains (before.length + 1) = true := by
  unfold siblingsAt pickFrom
  simp only [List.mem_flatMap, Option.mem_toList, List.mem_filterMap, Option.ite_none_right_eq_some,
    Bool.and_eq_true, Option.some.injEq]
  constructor
  · intro given
    obtain ⟨parent, owned, ⟨child, position⟩, counted, ⟨contained, same⟩, rfl⟩ := given
    obtain ⟨positive, place⟩ := List.mk_mem_zipIdx_iff_le_and_getElem?_sub.1 counted
    obtain ⟨inside, found⟩ := List.getElem?_eq_some_iff.1 place
    have row := List.take_append_drop (position - 1) (document.elementChildren parent)
    rw [List.drop_eq_getElem_cons inside, found] at row
    refine ⟨parent, _, _, owned, row.symm, same, ?_⟩
    rw [List.length_take_of_le (Nat.le_of_lt inside), Nat.sub_add_cancel positive]
    exact contained
  · intro given
    obtain ⟨parent, before, after, owned, row, same, contained⟩ := given
    refine ⟨parent, owned, (id, before.length + 1), ?_, ⟨contained, same⟩, rfl⟩
    apply List.mk_mem_zipIdx_iff_le_and_getElem?_sub.2
    exact ⟨Nat.le_add_left 1 _, by simp [row]⟩

/-- An element is exchanged for the siblings that share its tag name and have a position in the
progression. -/
theorem mem_siblingsAt (linked : document.Linked) {progression : Progression} :
    id ∈ siblingsAt document progression other ↔
      (∃ parent, document.parent? other = some parent ∧ document.parent? id = some parent) ∧
      document.sameTag id other = true ∧
      (PseudoClass.nth .any (.progression progression)).holds document id = true := by
  have counts : ∀ {parent : NodeId} {before after : List NodeId},
      document.elementChildren parent = before ++ id :: after →
      (PseudoClass.nth .any (.progression progression)).holds document id =
        progression.contains (before.length + 1) := by
    intro parent before after row
    have place : (document.elementChildren parent)[before.length]? = some id := by simp [row]
    obtain ⟨back, found⟩ := linked.positions?_of_place place
    rw [PseudoClass.nth_holds linked fun _ => Argument.noConfusion, found, Option.any_some]
    rfl
  rw [mem_siblingsAt_iff]
  constructor
  · intro given
    obtain ⟨parent, before, after, owned, row, same, contained⟩ := given
    have member : id ∈ document.elementChildren parent := by simp [row]
    have owns := linked.childIff.1 (List.mem_filter.1 member).1
    exact ⟨⟨parent, owned, owns⟩, same, (counts row).trans contained⟩
  · intro given
    obtain ⟨⟨parent, owned, owns⟩, same, held⟩ := given
    have element : document.isElement id = true := by
      cases known : document.element? id with
      | none => simp [Document.sameTag, Document.tag?, known] at same
      | some element => simp [Document.isElement, known]
    have member : id ∈ document.elementChildren parent :=
      List.mem_filter.2 ⟨linked.childIff.2 owns, element⟩
    obtain ⟨before, after, row⟩ := List.append_of_mem member
    exact ⟨parent, before, after, owned, row, same, (counts row).symm.trans held⟩

/-- Elements of one row are exchanged for the same siblings. -/
theorem siblingsAt_congr (progression : Progression)
    (same : siblingRow? document id = siblingRow? document other)
    (rowed : (siblingRow? document id).isSome = true) :
    siblingsAt document progression id = siblingsAt document progression other := by
  obtain ⟨row, found⟩ := Option.isSome_iff_exists.1 rowed
  have known := same.symm.trans found
  unfold siblingRow? at found known
  obtain ⟨parent, owned, inner⟩ := Option.bind_eq_some_iff.1 found
  obtain ⟨tag, tagged, rfl⟩ := Option.map_eq_some_iff.1 inner
  obtain ⟨above, owns, further⟩ := Option.bind_eq_some_iff.1 known
  obtain ⟨name, named, equal⟩ := Option.map_eq_some_iff.1 further
  obtain ⟨rfl, letters⟩ := Prod.mk.inj equal
  have alike : ∀ child, document.sameTag child id = document.sameTag child other := by
    intro child
    unfold Document.sameTag
    cases document.tag? child <;> simp [tagged, named, Text.sameLetters, letters]
  unfold siblingsAt pickFrom
  rw [owned, owns]
  simp only [alike]

/-- An element without a row is exchanged for nothing. -/
theorem siblingsAt_eq_nil {progression : Progression} (none : siblingRow? document id = none) :
    siblingsAt document progression id = [] := by
  unfold siblingsAt
  cases owned : document.parent? id with
  | none => rfl
  | some parent =>
      have tagless : document.tag? id = .none := by
        simpa [siblingRow?, owned] using none
      have different : ∀ child, document.sameTag child id = false := by
        intro child
        unfold Document.sameTag
        rw [tagless]
        cases document.tag? child <;> rfl
      simp [pickFrom, different]

/-- What is found for candidates is found for one of them. -/
theorem exists_of_mem_exchangeAll {progression : Progression} {candidates : List NodeId}
    {scanned : List (NodeId × String)}
    (member : id ∈ exchangeAll document progression scanned candidates) :
    ∃ candidate ∈ candidates, id ∈ siblingsAt document progression candidate := by
  induction candidates generalizing scanned with
  | nil => exact absurd member List.not_mem_nil
  | cons candidate rest inductionHypothesis =>
      have later : ∀ {scanned}, id ∈ exchangeAll document progression scanned rest →
          ∃ other ∈ candidate :: rest, id ∈ siblingsAt document progression other := by
        intro scanned member
        obtain ⟨other, among, held⟩ := inductionHypothesis member
        exact ⟨other, List.mem_cons_of_mem _ among, held⟩
      rw [exchangeAll] at member
      split at member
      · exact later member
      · split at member
        · exact later member
        · rcases List.mem_append.1 member with held | further
          · exact ⟨candidate, List.mem_cons_self, held⟩
          · exact later further

/-- What is not found for a candidate belongs to a row that has been scanned before. -/
theorem mem_exchangeAll_or_scanned {progression : Progression} {candidates : List NodeId}
    {candidate : NodeId} (scanned : List (NodeId × String)) (among : candidate ∈ candidates)
    (held : id ∈ siblingsAt document progression candidate) :
    id ∈ exchangeAll document progression scanned candidates ∨
      ∃ row ∈ scanned, siblingRow? document candidate = some row := by
  induction candidates generalizing scanned with
  | nil => exact absurd among List.not_mem_nil
  | cons first rest inductionHypothesis =>
      rw [exchangeAll]
      rcases List.mem_cons.1 among with rfl | further
      · split
        · rename_i rowless
          rw [siblingsAt_eq_nil rowless] at held
          exact absurd held List.not_mem_nil
        · rename_i row found
          split
          · rename_i before
            exact .inr ⟨row, List.contains_iff_mem.1 before, found⟩
          · exact .inl (List.mem_append_left _ held)
      · split
        · exact inductionHypothesis scanned further
        · rename_i row found
          split
          · exact inductionHypothesis scanned further
          · rcases inductionHypothesis (row :: scanned) further with later | seen
            · exact .inl (List.mem_append_right _ later)
            · obtain ⟨other, place, known⟩ := seen
              rcases List.mem_cons.1 place with rfl | before
              · have same := siblingsAt_congr progression
                  (known.trans found.symm) (by rw [known]; rfl)
                exact .inl (List.mem_append_left _ (same ▸ held))
              · exact .inr ⟨other, before, known⟩

/-- No exchange is lost because its row has been scanned before. -/
theorem mem_exchangeAll {progression : Progression} {candidates : List NodeId} :
    id ∈ exchangeAll document progression [] candidates ↔
      id ∈ candidates.flatMap (siblingsAt document progression) := by
  rw [List.mem_flatMap]
  constructor
  · exact exists_of_mem_exchangeAll
  · intro given
    obtain ⟨candidate, among, held⟩ := given
    rcases mem_exchangeAll_or_scanned [] among held with found | seen
    · exact found
    · obtain ⟨row, member, -⟩ := seen
      exact absurd member List.not_mem_nil

/-- Where all siblings are candidates, the exchange keeps those at positions of the progression. -/
theorem Step.mem_exchanged (linked : document.Linked)
    (noId : step.combinator = .descendant → step.compound.id = none)
    (downwards : step.combinator = .descendant ∨ step.combinator = .child)
    (tagOnly : step.compound.id = none ∧ step.compound.classes = [] ∧ step.compound.attributes = [])
    {progression : Progression} :
    id ∈ ((step.reach document previous).filter (step.passes document)).flatMap
        (siblingsAt document progression) ↔
      id ∈ (step.reach document previous).filter (step.passes document) ∧
        (PseudoClass.nth .any (.progression progression)).holds document id = true := by
  have demanded : ∀ node, (document.element? node).any step.compound.holds =
      document.hasTag node step.compound.tag := by
    intro node
    unfold Document.hasTag
    cases document.element? node with
    | none => rfl
    | some element =>
        simp [Compound.holds, Compound.idHolds, Compound.filtersHold, tagOnly.1, tagOnly.2.1,
          tagOnly.2.2]
  simp only [List.mem_flatMap, mem_candidates noId, mem_siblingsAt linked, demanded]
  constructor
  · intro given
    obtain ⟨other, ⟨earlier, member, place, tagged⟩, ⟨parent, owned, owns⟩, same, held⟩ := given
    rw [← Document.hasTag_of_sameTag same] at tagged
    exact ⟨⟨earlier, member, Combinator.mem_places_of_sibling linked downwards place owned owns,
      tagged⟩, held⟩
  · intro given
    obtain ⟨⟨earlier, member, place, tagged⟩, held⟩ := given
    obtain ⟨parent, owned⟩ := Option.isSome_iff_exists.1
      (Combinator.parent?_of_mem_places linked place)
    have same := Document.sameTag_self (Document.isElement_of_hasTag tagged)
    exact ⟨id, ⟨earlier, member, place, tagged⟩, ⟨parent, owned, owned⟩, same, held⟩

/-- Only counting arguments of one kind exchange elements. -/
theorem eq_nth_of_exchange? {pseudo : PseudoClass} {progression : Progression}
    (exchange : pseudo.exchange? = some progression) :
    pseudo = .nth .any (.progression progression) := by
  unfold PseudoClass.exchange? at exchange
  split at exchange
  · cases exchange
    rfl
  · cases exchange

/-- The pseudo-classes of a step keep, of all candidates, those that meet each of them. -/
theorem Step.mem_follow_iff_candidate (linked : document.Linked)
    (noId : step.combinator = .descendant → step.compound.id = none)
    (exchanges : step.ExchangesFirst) :
    id ∈ step.follow document previous ↔
      id ∈ (step.reach document previous).filter (step.passes document) ∧
        (step.pseudos.all fun pseudo => pseudo.holds document id) = true := by
  unfold ExchangesFirst at exchanges
  unfold follow
  cases pseudos : step.pseudos with
  | nil => simp
  | cons pseudo rest =>
      rw [pseudos] at exchanges
      have steady : ∀ other ∈ rest, other.exchange? = none := by
        intro other member
        obtain ⟨index, place⟩ := List.mem_iff_getElem?.1 member
        apply Option.not_isSome_iff_eq_none.1
        intro exchange
        exact absurd (exchanges (index + 1) other place exchange).1 (Nat.succ_ne_zero index)
      rw [List.foldl_cons, foldl_apply_eq_filter document rest _ steady, List.mem_filter,
        List.all_cons, Bool.and_eq_true, ← and_assoc]
      apply and_congr_left
      intro _
      unfold PseudoClass.apply
      cases exchange : pseudo.exchange? with
      | none => exact List.mem_filter
      | some progression =>
          obtain ⟨-, downwards, tagOnly⟩ := exchanges 0 pseudo rfl (by rw [exchange]; rfl)
          rw [eq_nth_of_exchange? exchange, List.mem_eraseDups, mem_exchangeAll]
          exact mem_exchanged linked noId downwards tagOnly

/-- A step leads to the nodes in the places of its combinator that meet it. -/
theorem Step.mem_follow (linked : document.Linked)
    (noId : step.combinator = .descendant → step.compound.id = none)
    (exchanges : step.ExchangesFirst) :
    id ∈ step.follow document previous ↔ ∃ earlier ∈ previous,
      id ∈ step.combinator.places document earlier ∧ step.isMet document id = true := by
  rw [mem_follow_iff_candidate linked noId exchanges, mem_candidates noId]
  unfold isMet
  simp only [Bool.and_eq_true]
  constructor
  · intro given
    obtain ⟨⟨earlier, member, place, held⟩, all⟩ := given
    exact ⟨earlier, member, place, held, all⟩
  · intro given
    obtain ⟨earlier, member, place, held, all⟩ := given
    exact ⟨⟨earlier, member, place, held⟩, all⟩

end Group

end ElementQuery

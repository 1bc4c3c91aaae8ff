/-
This file says what a group selects without walking: a trail leads from the scope through one node for
every step, and through one node for every pseudo-class within a step.
-/

import ElementQuery.Proofs.Document.Register
import ElementQuery.Proofs.Group.Cache
import ElementQuery.Proofs.Group.Following

namespace ElementQuery

namespace Group

section Trails

variable {Link : Type} {leads : Link → NodeId → NodeId → Prop}

/-- A trail takes every link of a list in turn, each from the node to which the one before it has
led. -/
inductive Trail (leads : Link → NodeId → NodeId → Prop) : List Link → NodeId → NodeId → Prop
  | arrive {id : NodeId} : Trail leads [] id id
  | follow {link : Link} {rest : List Link} {earlier middle id : NodeId}
      (first : leads link earlier middle) (later : Trail leads rest middle id) :
      Trail leads (link :: rest) earlier id

theorem trail_nil_iff {earlier id : NodeId} : Trail leads [] earlier id ↔ earlier = id := by
  constructor
  · intro trail
    cases trail
    rfl
  · rintro rfl
    exact .arrive

theorem trail_cons_iff {link : Link} {rest : List Link} {earlier id : NodeId} :
    Trail leads (link :: rest) earlier id ↔
      ∃ middle, leads link earlier middle ∧ Trail leads rest middle id := by
  constructor
  · intro trail
    cases trail with
    | follow first later => exact ⟨_, first, later⟩
  · intro given
    obtain ⟨middle, first, later⟩ := given
    exact .follow first later

/-- When every link takes a list of nodes to those to which it leads from one of them, the links
together take it to the ends of all trails. -/
theorem mem_foldl_iff_trail (advance : List NodeId → Link → List NodeId)
    (each : ∀ link previous id,
      id ∈ advance previous link ↔ ∃ earlier ∈ previous, leads link earlier id)
    {links : List Link} {start : List NodeId} {id : NodeId} :
    id ∈ links.foldl advance start ↔ ∃ first ∈ start, Trail leads links first id := by
  induction links generalizing start with
  | nil => simp [trail_nil_iff]
  | cons link rest inductionHypothesis =>
      rw [List.foldl_cons, inductionHypothesis]
      simp only [each, trail_cons_iff]
      constructor
      · intro given
        obtain ⟨middle, ⟨earlier, member, first⟩, later⟩ := given
        exact ⟨earlier, member, middle, first, later⟩
      · intro given
        obtain ⟨earlier, member, middle, first, later⟩ := given
        exact ⟨middle, ⟨earlier, member, first⟩, later⟩

end Trails

variable {document : Document} {step : Step} {previous : List NodeId} {earlier id : NodeId}

/-- A node stands to an earlier one in the relation of a combinator: strictly below it, directly below
it, or behind it in the row of a parent, with no element between them when they are adjacent. -/
def Combinator.Relates (document : Document) (earlier id : NodeId) : Combinator → Prop
  | .descendant => Relation.TransGen
      (fun parent child : NodeId => document.parent? child = some parent) earlier id
  | .child => document.parent? id = some earlier
  | .adjacent => ∃ parent before between after,
      document.children parent = before ++ earlier :: (between ++ id :: after) ∧
        ∀ other ∈ between, document.isElement other = false
  | .general => ∃ parent before between after,
      document.children parent = before ++ earlier :: (between ++ id :: after)

/-- A step finds an element in the relation of its combinator. One that is known by its id is the one of
the whole document and needs no tag name, when it is looked for below the earlier node. -/
structure Step.Finds (document : Document) (step : Step) (earlier id : NodeId) : Prop where
  related : step.combinator.Relates document earlier id
  known : ∀ name, step.combinator = .descendant → step.compound.id = some name →
    document.elementById? name = some id
  tagged : (step.combinator = .descendant → step.compound.id = none) →
    document.hasTag id step.compound.tag = true
  tested : ∃ element, document.content? id = some (.element element) ∧
    (∀ name ∈ step.compound.classes, element.hasClass name = true) ∧
    (∀ filter ∈ step.compound.attributes, filter.holds element = true) ∧
    (step.combinator ≠ .descendant → ∀ name, step.compound.id = some name →
      element.id? = some name)

/-- A pseudo-class keeps an element that meets it. One with a progression leads to every element of the
same row with the same tag name whose position is in the progression. -/
def PseudoClass.Turns (document : Document) (pseudo : PseudoClass) (earlier id : NodeId) : Prop :=
  match pseudo.exchange? with
  | none => id = earlier ∧ pseudo.holds document earlier = true
  | some progression => ∃ parent before after, document.parent? earlier = some parent ∧
      document.elementChildren parent = before ++ id :: after ∧
      document.sameTag id earlier = true ∧ progression.contains (before.length + 1) = true

/-- A step leads to an element when a trail through its pseudo-classes leads there from an element that
it finds. -/
def Step.Leads (document : Document) (step : Step) (earlier id : NodeId) : Prop :=
  ∃ found, step.Finds document earlier found ∧
    Trail (PseudoClass.Turns document) step.pseudos found id

/-- An element has an element as its next one when nothing between them is an element. -/
theorem nextElement?_eq_some_iff (linked : document.Linked) :
    document.nextElement? earlier = some id ↔
      document.isElement id = true ∧ Combinator.adjacent.Relates document earlier id := by
  rw [Document.nextElement?, List.find?_eq_some_iff_append]
  simp only [linked.followingSiblings_eq_iff, Combinator.Relates, Bool.not_eq_true']
  apply and_congr_right
  intro _
  constructor
  · intro given
    obtain ⟨between, after, ⟨parent, before, place⟩, apart⟩ := given
    exact ⟨parent, before, between, after, place, apart⟩
  · intro given
    obtain ⟨parent, before, between, after, place, apart⟩ := given
    exact ⟨between, after, ⟨parent, before, place⟩, apart⟩

/-- The places of a combinator hold the elements that stand in its relation. -/
theorem Combinator.mem_places_iff_relates (linked : document.Linked)
    (element : document.isElement id = true) {combinator : Combinator} :
    id ∈ combinator.places document earlier ↔ combinator.Relates document earlier id := by
  cases combinator with
  | descendant => exact linked.mem_descendants.trans linked.mem_ancestors_iff_transGen
  | child => exact linked.childIff
  | adjacent =>
      rw [places, Option.mem_toList, nextElement?_eq_some_iff linked]
      exact and_iff_right element
  | general =>
      rw [places, List.mem_iff_append]
      simp only [linked.followingSiblings_eq_iff, Relates]
      constructor
      · intro given
        obtain ⟨between, after, parent, before, place⟩ := given
        exact ⟨parent, before, between, after, place⟩
      · intro given
        obtain ⟨parent, before, between, after, place⟩ := given
        exact ⟨between, after, parent, before, place⟩

/-- What is left of a step's demands once the element is known. -/
theorem Step.passes_iff : step.passes document id = true ↔
    ∃ element, document.content? id = some (.element element) ∧
      (∀ name ∈ step.compound.classes, element.hasClass name = true) ∧
      (∀ filter ∈ step.compound.attributes, filter.holds element = true) ∧
      (step.combinator ≠ .descendant → ∀ name, step.compound.id = some name →
        element.id? = some name) := by
  rw [passes, Option.any_eq_true]
  simp only [Document.element?_eq_some_iff, Compound.filtersHold, Compound.idHolds, Bool.and_eq_true,
    Bool.or_eq_true, beq_iff_eq, List.all_eq_true, Option.all_eq_true]
  apply exists_congr
  intro element
  apply and_congr_right
  intro _
  constructor
  · intro given
    obtain ⟨known, classes, attributes⟩ := given
    exact ⟨classes, attributes, known.resolve_left⟩
  · intro given
    obtain ⟨classes, attributes, known⟩ := given
    exact ⟨or_iff_not_imp_left.2 known, classes, attributes⟩

/-- A step to descendants that asks for an id reaches the element with the id, below an earlier node. -/
theorem Step.mem_reach_of_id {name : String} (below : step.combinator = .descendant)
    (asked : step.compound.id = some name) : id ∈ step.reach document previous ↔
      document.elementById? name = some id ∧
        ∃ earlier ∈ previous, earlier ∈ document.ancestors id := by
  simp only [reach, below, reachBelow, asked, Option.mem_toList, Option.filter_eq_some_iff,
    List.any_eq_true, Document.isDescendantOf, List.contains_iff_mem]

/-- What a step reaches and lets pass is what it finds from an earlier node. -/
theorem Step.mem_candidates_iff_finds (linked : document.Linked) :
    id ∈ (step.reach document previous).filter (step.passes document) ↔
      ∃ earlier ∈ previous, step.Finds document earlier id := by
  rw [List.mem_filter]
  by_cases noId : step.combinator = .descendant → step.compound.id = none
  · rw [mem_reach noId, passes_iff]
    constructor
    · intro given
      obtain ⟨⟨earlier, member, place, tagged⟩, tested⟩ := given
      have related := (Combinator.mem_places_iff_relates linked
        (Document.isElement_of_hasTag tagged)).1 place
      refine ⟨earlier, member, related, fun name way asked => ?_, fun _ => tagged, tested⟩
      rw [noId way] at asked
      cases asked
    · intro given
      obtain ⟨earlier, member, found⟩ := given
      have tagged := found.tagged noId
      have place := (Combinator.mem_places_iff_relates linked
        (Document.isElement_of_hasTag tagged)).2 found.related
      exact ⟨⟨earlier, member, place, tagged⟩, found.tested⟩
  · obtain ⟨below, asks⟩ := Classical.not_imp.1 noId
    obtain ⟨name, asked⟩ := Option.ne_none_iff_exists'.1 asks
    rw [mem_reach_of_id below asked, passes_iff]
    have related : ∀ earlier, step.combinator.Relates document earlier id ↔
        earlier ∈ document.ancestors id := by
      intro earlier
      rw [below]
      exact linked.mem_ancestors_iff_transGen.symm
    constructor
    · intro given
      obtain ⟨⟨known, earlier, member, above⟩, tested⟩ := given
      refine ⟨earlier, member, (related earlier).2 above, fun other _ same => ?_,
        fun free => absurd free noId, tested⟩
      rw [asked] at same
      exact Option.some.inj same ▸ known
    · intro given
      obtain ⟨earlier, member, found⟩ := given
      exact ⟨⟨found.known name below asked, earlier, member, (related earlier).1 found.related⟩,
        found.tested⟩

/-- A pseudo-class leads each candidate where it turns it. -/
theorem PseudoClass.mem_apply_iff_turns {pseudo : PseudoClass} :
    id ∈ pseudo.apply document previous ↔
      ∃ earlier ∈ previous, pseudo.Turns document earlier id := by
  unfold apply Turns
  cases pseudo.exchange? with
  | none =>
      simp only [List.mem_filter]
      constructor
      · intro given
        exact ⟨id, given.1, rfl, given.2⟩
      · rintro ⟨earlier, member, rfl, held⟩
        exact ⟨member, held⟩
  | some progression =>
      simp only [List.mem_eraseDups, mem_exchangeAll, List.mem_flatMap, mem_siblingsAt_iff]

/-- A step leads a list of nodes to where it leads from one of them. -/
theorem Step.mem_follow_iff_leads (linked : document.Linked) :
    id ∈ step.follow document previous ↔
      ∃ earlier ∈ previous, step.Leads document earlier id := by
  rw [follow, mem_foldl_iff_trail (PseudoClass.apply document) fun _ _ _ =>
    PseudoClass.mem_apply_iff_turns]
  simp only [mem_candidates_iff_finds linked, Leads]
  constructor
  · intro given
    obtain ⟨found, ⟨earlier, member, finds⟩, trail⟩ := given
    exact ⟨earlier, member, found, finds, trail⟩
  · intro given
    obtain ⟨earlier, member, found, finds, trail⟩ := given
    exact ⟨found, ⟨earlier, member, finds⟩, trail⟩

/-- The steps of a group lead a list of nodes to the ends of the trails from it. -/
theorem mem_foldl_follow_iff_trail (linked : document.Linked) {steps : List Step} :
    id ∈ steps.foldl (Step.follow document) previous ↔
      ∃ first ∈ previous, Trail (Step.Leads document) steps first id :=
  mem_foldl_iff_trail (Step.follow document) fun _ _ _ => Step.mem_follow_iff_leads linked

/-- A well-formed group selects the elements to which a trail through its steps leads from the scope. -/
theorem mem_selectAll_iff_trail (reachable : Document.Reachable document) {group : Group}
    (whole : group.isMalformed = false) {scope : NodeId} :
    id ∈ group.selectAll document scope ↔
      Trail (Step.Leads document) group.steps scope id := by
  rw [selectAll_eq_foldl, if_neg (Bool.not_eq_true _ ▸ whole), mem_foldl_follow_iff_trail reachable.linked]
  simp only [List.mem_singleton, exists_eq_left]

/-- Trails lead from the first of three items, which is known by its id, over the items at odd positions
to those behind them, and so to the third item but not to the first. -/
theorem trail_through_exchange : ∃ document, ∃ group : Group, Document.Reachable document ∧
    Trail (Step.Leads document) group.steps Document.root 4 ∧
    ¬ Trail (Step.Leads document) group.steps Document.root 2 := by
  have ran : (Document.empty.run? [.createElement "ul" [], .createElement "li" [("id", "a")],
      .createElement "li" [], .createElement "li" [], .append 0 1, .append 1 2, .append 1 3,
      .append 1 4]).any (fun document =>
        selectAll document Document.root ⟨"#a:nth-child(odd) ~ *", [⟨.descendant, { id := some "a" },
          [.nth .any (.progression Progression.odd)]⟩, ⟨.general, {}, []⟩], none⟩ = [3, 4]) =
      true := by
    decide
  obtain ⟨document, reachable, selected⟩ := Document.exists_reachable ran
  refine ⟨document, ⟨"#a:nth-child(odd) ~ *", [⟨.descendant, { id := some "a" },
    [.nth .any (.progression Progression.odd)]⟩, ⟨.general, {}, []⟩], none⟩, reachable, ?_,
    fun trail => ?_⟩
  · apply (mem_selectAll_iff_trail reachable rfl).1
    rw [selected]
    decide
  · have member := (mem_selectAll_iff_trail reachable rfl).2 trail
    rw [selected] at member
    exact absurd member (by decide)

end Group

end ElementQuery

/-
This file says what a selector asks for without searching: a trail leads away from the subject through one
element for every link of the chain. Trying every candidate for every link finds the trail if there is one.
-/

import ElementQuery.Proofs.Group.Trail
import ElementQuery.Selector.Matching

namespace ElementQuery.Selector

open ElementQuery.Group (Trail trail_nil_iff trail_cons_iff)

variable {document : Document} {id other : NodeId}

/-- A compound is fulfilled by an element that meets all its conditions. -/
def Fulfils (document : Document) (compound : Compound) (id : NodeId) : Prop :=
  ∃ element, document.content? id = some (.element element) ∧
    ∀ simple ∈ compound, simple.holds document id element = true

/-- Another node stands to a node in the relation of a combinator: strictly above it, directly above it, or
as an element before it in the row of a parent, with no element between them when it is the nearest. -/
def Combinator.Joins (document : Document) (id other : NodeId) : Combinator → Prop
  | .descendant => Relation.TransGen
      (fun parent child : NodeId => document.parent? child = some parent) other id
  | .child => document.parent? id = some other
  | .nextSibling => document.isElement other = true ∧ ∃ parent before between after,
      document.children parent = before ++ other :: (between ++ id :: after) ∧
        ∀ node ∈ between, document.isElement node = false
  | .laterSibling => document.isElement other = true ∧ ∃ parent before between after,
      document.children parent = before ++ other :: (between ++ id :: after)

/-- A link of a chain leads from a node to those in the relation of its combinator that fulfil its
compound. -/
def Leads (document : Document) (link : Combinator × Compound) (id other : NodeId) : Prop :=
  link.1.Joins document id other ∧ Fulfils document link.2 other

theorem compoundHolds_iff_fulfils {compound : Compound} :
    compoundHolds document compound id = true ↔ Fulfils document compound id := by
  rw [compoundHolds, Option.any_eq_true]
  simp only [Document.element?_eq_some_iff, allHold_eq_all, List.all_eq_true, Fulfils]

/-- The candidates of a combinator are the nodes in its relation. -/
theorem mem_candidates_iff_joins (linked : document.Linked) {combinator : Combinator} :
    other ∈ candidates document id combinator ↔ combinator.Joins document id other := by
  cases combinator with
  | descendant => exact linked.mem_ancestors_iff_transGen
  | child => exact Option.mem_toList
  | nextSibling =>
      rw [candidates, Option.mem_toList, Document.previousElement?, List.find?_eq_some_iff_append]
      simp only [linked.precedingSiblings_eq_iff, Combinator.Joins, Bool.not_eq_true']
      apply and_congr_right
      intro _
      constructor
      · intro given
        obtain ⟨between, before, ⟨parent, after, place⟩, apart⟩ := given
        exact ⟨parent, before.reverse, between.reverse, after, place,
          fun node member => apart node (List.mem_reverse.1 member)⟩
      · intro given
        obtain ⟨parent, before, between, after, place, apart⟩ := given
        refine ⟨between.reverse, before.reverse, ⟨parent, after, ?_⟩,
          fun node member => apart node (List.mem_reverse.1 member)⟩
        simpa using place
  | laterSibling =>
      rw [candidates, List.mem_filter, and_comm, List.mem_iff_append]
      simp only [linked.precedingSiblings_eq_iff, Combinator.Joins]
      apply and_congr_right
      intro _
      constructor
      · intro given
        obtain ⟨between, before, parent, after, place⟩ := given
        exact ⟨parent, before.reverse, between.reverse, after, place⟩
      · intro given
        obtain ⟨parent, before, between, after, place⟩ := given
        exact ⟨between.reverse, before.reverse, parent, after, by simpa using place⟩

/-- The search along a chain, which tries every candidate again for what is left of the chain, finds a
trail whenever there is one. -/
theorem chainHolds_iff_trail (linked : document.Linked) (chain : List (Combinator × Compound))
    (id : NodeId) :
    chainHolds document chain id = true ↔ ∃ last, Trail (Leads document) chain id last := by
  induction chain generalizing id with
  | nil => simp [chainHolds, trail_nil_iff]
  | cons link rest inductionHypothesis =>
      obtain ⟨combinator, compound⟩ := link
      rw [chainHolds, List.any_eq_true]
      simp only [Bool.and_eq_true, mem_candidates_iff_joins linked, compoundHolds_iff_fulfils,
        inductionHypothesis, trail_cons_iff, Leads]
      constructor
      · intro given
        obtain ⟨middle, joins, fulfils, last, later⟩ := given
        exact ⟨last, middle, ⟨joins, fulfils⟩, later⟩
      · intro given
        obtain ⟨last, middle, ⟨joins, fulfils⟩, later⟩ := given
        exact ⟨middle, joins, fulfils, last, later⟩

/-- In every reachable document, a selector holds of the nodes that fulfil its subject and from which a
trail leads through its chain. -/
theorem Complex.holds_iff_trail (reachable : Document.Reachable document) (complex : Complex)
    (id : NodeId) : complex.holds document id = true ↔ Fulfils document complex.subject id ∧
      ∃ last, Trail (Leads document) complex.chain id last := by
  rw [Complex.holds, Bool.and_eq_true, compoundHolds_iff_fulfils,
    chainHolds_iff_trail reachable.linked]

/-- The division directly above the second paragraph has no article directly above it, so that the trail goes
on through the one further up. No trail leads from the first paragraph, which has none before it. -/
theorem Complex.holds_iff_trail_of_nested : ∃ document, Document.Reachable document ∧
    (∃ last, Trail (Leads document) [(.nextSibling, [.tag "p"]), (.descendant, [.tag "div"]),
      (.child, [.tag "article"])] 5 last) ∧
    ¬ ∃ last, Trail (Leads document) [(.nextSibling, [.tag "p"]), (.descendant, [.tag "div"]),
      (.child, [.tag "article"])] 4 last := by
  have ran : (Document.empty.run? [.createElement "article" [], .createElement "div" [],
      .createElement "div" [], .createElement "p" [], .createElement "p" [], .append 0 1, .append 1 2,
      .append 2 3, .append 3 4, .append 3 5]).any (fun document =>
        Complex.holds document ⟨[], [(.nextSibling, [.tag "p"]), (.descendant, [.tag "div"]),
          (.child, [.tag "article"])]⟩ 5 = true ∧
        Complex.holds document ⟨[], [(.nextSibling, [.tag "p"]), (.descendant, [.tag "div"]),
          (.child, [.tag "article"])]⟩ 4 = false ∧
        document.content? 4 = some (.element ⟨"p", {}⟩)) = true := by
    decide
  obtain ⟨document, reachable, found, missing, held⟩ := Document.exists_reachable ran
  refine ⟨document, reachable, ((holds_iff_trail reachable _ 5).1 found).2, fun trail => ?_⟩
  have holds := (holds_iff_trail reachable ⟨[], _⟩ 4).2 ⟨⟨_, held, by simp⟩, trail⟩
  rw [missing] at holds
  cases holds

end ElementQuery.Selector

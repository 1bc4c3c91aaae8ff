/-
This file shows that what a group selects below a scope depends on nothing outside: two documents that share what
hangs below the scope yield the same elements in the same order, as long as no id is looked up.
-/

import ElementQuery.Proofs.Document.Shared
import ElementQuery.Proofs.Group.Confinement

namespace ElementQuery.Group

/-- Two runs agree when each advance agrees on the states that the runs come through. -/
theorem foldl_eq_of_keeps {S L : Type} {advance other : S → L → S} (inside : S → Prop) {links : List L}
    (same : ∀ link ∈ links, ∀ state, inside state → advance state link = other state link)
    (keeps : ∀ link ∈ links, ∀ state, inside state → inside (advance state link)) {start : S}
    (entered : inside start) : links.foldl advance start = links.foldl other start := by
  induction links generalizing start with
  | nil => rfl
  | cons link rest inductionHypothesis =>
      rw [List.foldl_cons, List.foldl_cons, ← same link List.mem_cons_self start entered]
      exact inductionHypothesis (fun later member => same later (List.mem_cons_of_mem _ member))
        (fun later member => keeps later (List.mem_cons_of_mem _ member))
        (keeps link List.mem_cons_self start entered)

section Nodes

variable {first second : Document} {scope id : NodeId} (shared : first.SharesBelow second scope)
  (linked : first.Linked) (others : second.Linked)

include shared linked others

/-- A pseudo-class is met below the scope in both documents or in neither. -/
theorem PseudoClass.holds_eq (below : scope ∈ first.ancestors id) (pseudo : PseudoClass) :
    pseudo.holds first id = pseudo.holds second id := by
  have positions := shared.positions?_eq linked others below
  cases pseudo with
  | first kin => rw [first_holds linked, first_holds others, Document.isFirst, Document.isFirst, positions]
  | last kin => rw [last_holds linked, last_holds others, Document.isLast, Document.isLast, positions]
  | only kin =>
      simp only [only_holds linked, only_holds others, Document.isFirst, Document.isLast, positions]
  | nth kin argument =>
      by_cases counts : kin = .any → argument ≠ .every
      · rw [nth_holds linked counts, nth_holds others counts, positions]
      · obtain ⟨rfl, rfl⟩ : kin = .any ∧ argument = .every := by simpa using counts
        rfl
  | empty => rw [holds, holds, shared.children_eq (.inr below)]
  | contains text => rw [holds, holds, shared.inner_eq linked others below]
  | enabled | disabled | checked => simp only [holds, shared.hasAttribute_eq below]
  | negation compound => rw [holds, holds, shared.element?_eq below]

/-- An element below the scope is exchanged for the same siblings. -/
theorem siblingsAt_eq (below : scope ∈ first.ancestors id) (progression : Progression) :
    siblingsAt first progression id = siblingsAt second progression id := by
  obtain ⟨parent, owned, place⟩ := linked.mem_ancestors.1 below
  unfold siblingsAt pickFrom
  rw [← shared.parent?_eq linked others below, owned, Option.toList_some, List.flatMap_singleton,
    List.flatMap_singleton, ← shared.elementChildren_eq linked place]
  refine List.filterMap_congr fun entry member => ?_
  have among := (List.mem_filter.1 (List.fst_mem_of_mem_zipIdx member)).1
  have beneath := Document.SharesBelow.below_of_mem_children linked place among
  simp only [shared.sameTag_eq beneath below]

theorem siblingRow?_eq (below : scope ∈ first.ancestors id) : siblingRow? first id = siblingRow? second id := by
  rw [siblingRow?, siblingRow?, shared.parent?_eq linked others below, shared.tag?_eq below]

/-- So are several elements, with the same rows scanned before. -/
theorem exchangeAll_eq (progression : Progression) (scanned : List (NodeId × String))
    {candidates : List NodeId} (below : ∀ id ∈ candidates, scope ∈ first.ancestors id) :
    exchangeAll first progression scanned candidates = exchangeAll second progression scanned candidates := by
  induction candidates generalizing scanned with
  | nil => rfl
  | cons candidate rest inductionHypothesis =>
      have under := below candidate List.mem_cons_self
      have later := fun scanned => inductionHypothesis scanned fun other member =>
        below other (List.mem_cons_of_mem _ member)
      simp only [exchangeAll, siblingRow?_eq shared linked others under,
        siblingsAt_eq shared linked others under, later]

theorem PseudoClass.apply_eq {candidates : List NodeId}
    (below : ∀ id ∈ candidates, scope ∈ first.ancestors id) (pseudo : PseudoClass) :
    pseudo.apply first candidates = pseudo.apply second candidates := by
  unfold apply
  split
  · rw [exchangeAll_eq shared linked others _ _ below]
  · exact List.filter_congr fun id member => pseudo.holds_eq shared linked others (below id member)

omit linked others in
theorem Step.passes_eq (below : scope ∈ first.ancestors id) (step : Step) :
    step.passes first id = step.passes second id := by
  rw [passes, passes, shared.element?_eq below]

end Nodes

section Steps

variable {first second : Document} {scope id : NodeId} {step : Step} {previous : List NodeId}
  (linked : first.Linked) (start : ∀ earlier ∈ previous, step.StartsWithin first scope earlier)
  (noId : step.combinator = .descendant → step.compound.id = none)

include linked start

theorem Step.below_of_mem_follow (member : id ∈ step.follow first previous) :
    scope ∈ first.ancestors id := by
  obtain ⟨earlier, among, leads⟩ := (mem_follow_iff_leads linked).1 member
  exact leads.below linked (start earlier among)

include noId

theorem Step.below_of_mem_reach (member : id ∈ step.reach first previous) :
    scope ∈ first.ancestors id := by
  obtain ⟨earlier, among, place, tagged⟩ := (mem_reach noId).1 member
  have element := Document.isElement_of_hasTag tagged
  exact ((Combinator.mem_places_iff_relates linked element).1 place).below linked (start earlier among)

variable (shared : first.SharesBelow second scope) (others : second.Linked)

include shared others

/-- A step that looks up no id reaches the same nodes in both documents. -/
theorem Step.reach_eq : step.reach first previous = step.reach second previous := by
  unfold reach
  cases way : step.combinator with
  | descendant =>
      show step.reachBelow first previous = step.reachBelow second previous
      rw [reachBelow, reachBelow, noId way]
      refine congrArg List.eraseDups (List.flatMap_congr fun earlier member => ?_)
      exact shared.elementsByTag_eq linked others (start earlier member).within _
  | child =>
      have rows : previous.flatMap first.elementChildren = previous.flatMap second.elementChildren :=
        List.flatMap_congr fun earlier member =>
          shared.elementChildren_eq linked (start earlier member).within
      dsimp only
      rw [← rows]
      refine List.filter_congr fun id found => shared.hasTag_eq ?_ _
      obtain ⟨earlier, member, child⟩ := List.mem_flatMap.1 found
      exact Document.SharesBelow.below_of_mem_children linked (start earlier member).within
        (List.mem_filter.1 child).1
  | adjacent =>
      have below := fun earlier member => (start earlier member).below_of_sideways (.inl way)
      have nexts : previous.filterMap first.nextElement? = previous.filterMap second.nextElement? :=
        List.filterMap_congr fun earlier member =>
          shared.nextElement?_eq linked others (below earlier member)
      dsimp only
      rw [← nexts]
      refine List.filter_congr fun id found => shared.hasTag_eq ?_ _
      obtain ⟨earlier, member, next⟩ := List.mem_filterMap.1 found
      exact Document.SharesBelow.below_of_mem_followingSiblings linked (below earlier member)
        (List.mem_of_find?_eq_some next)
  | general =>
      have below := fun earlier member => (start earlier member).below_of_sideways (.inr way)
      have rows : previous.flatMap first.followingSiblings = previous.flatMap second.followingSiblings :=
        List.flatMap_congr fun earlier member =>
          shared.followingSiblings_eq linked others (below earlier member)
      dsimp only
      rw [← rows]
      refine congrArg List.eraseDups (List.filter_congr fun id found => shared.hasTag_eq ?_ _)
      obtain ⟨earlier, member, beside⟩ := List.mem_flatMap.1 found
      exact Document.SharesBelow.below_of_mem_followingSiblings linked (below earlier member) beside

/-- It leads to the same elements. -/
theorem Step.follow_eq : step.follow first previous = step.follow second previous := by
  have under : ∀ id ∈ step.reach first previous, scope ∈ first.ancestors id := fun id member =>
    below_of_mem_reach linked start noId member
  have candidates : (step.reach first previous).filter (step.passes first) =
      (step.reach second previous).filter (step.passes second) := by
    rw [← reach_eq linked start noId shared others]
    exact List.filter_congr fun id member => step.passes_eq shared (under id member)
  rw [follow, follow, ← candidates]
  refine foldl_eq_of_keeps (fun nodes => ∀ id ∈ nodes, scope ∈ first.ancestors id)
    (fun pseudo _ nodes below => pseudo.apply_eq shared linked others below)
    (fun pseudo _ nodes below id member => ?_) fun id member => under id (List.mem_filter.1 member).1
  obtain ⟨earlier, among, turns⟩ := PseudoClass.mem_apply_iff_turns.1 member
  exact turns.below linked (below earlier among)

end Steps

/-- When two documents share what hangs below a scope, a group whose first step leads to descendants or children
selects the same elements in both, in the same order, if none of its steps to descendants looks up an id. -/
theorem selectAll_eq_of_sharesBelow {first second : Document} {scope : NodeId} (reachable : first.Reachable)
    (other : second.Reachable) (shared : first.SharesBelow second scope) {group : Group}
    (downwards : ∀ step ∈ group.steps.head?, step.combinator = .descendant ∨ step.combinator = .child)
    (noId : ∀ step ∈ group.steps, step.combinator = .descendant → step.compound.id = none) :
    group.selectAll first scope = group.selectAll second scope := by
  have linked := reachable.linked
  rw [selectAll_eq_foldl, selectAll_eq_foldl]
  split
  · rfl
  · cases steps : group.steps with
    | nil => rfl
    | cons opening rest =>
        rw [steps] at downwards noId
        have start : ∀ earlier ∈ [scope], opening.StartsWithin first scope earlier := by
          intro earlier member
          exact .inr ⟨List.mem_singleton.1 member, downwards opening rfl⟩
        rw [List.foldl_cons, List.foldl_cons,
          ← Step.follow_eq linked start (noId opening List.mem_cons_self) shared other.linked]
        refine foldl_eq_of_keeps (fun nodes => ∀ id ∈ nodes, scope ∈ first.ancestors id)
          (fun step member nodes below => ?_) (fun step _ nodes below id => ?_)
          fun id => Step.below_of_mem_follow linked start
        · exact Step.follow_eq linked (fun earlier among => .inl (below earlier among))
            (noId step (List.mem_cons_of_mem _ member)) shared other.linked
        · exact Step.below_of_mem_follow linked fun earlier among => .inl (below earlier among)

/-- A list is selected from in the same way after it has been moved behind an item of another list, which takes
over the id, and has got a class. -/
theorem selectAll_eq_of_sharesBelow_of_moved : ∃ first second : Document, ∃ group : Group,
    first.Reachable ∧ second.Reachable ∧ first.SharesBelow second 1 ∧
    first.parent? 1 = some Document.root ∧ second.previous? 1 = some 7 ∧
    (∀ step ∈ group.steps.head?, step.combinator = .descendant ∨ step.combinator = .child) ∧
    (∀ step ∈ group.steps, step.combinator = .descendant → step.compound.id = none) ∧
    group.selectAll first 1 = [2, 4] ∧ group.selectAll second 1 = [2, 4] := by
  let group : Group := ⟨"> #a:contains(x) ~ li:nth-child(odd)", [⟨.child, { id := some "a" },
    [.contains "x"]⟩, ⟨.general, { tag := "li" }, [.nth .any (.progression .odd)]⟩], none⟩
  have ran : (Document.empty.run? [.createElement "ul" [], .createElement "li" [],
      .createElement "li" [("id", "a")], .createElement "li" [], .createText "x", .append 1 2, .append 1 3,
      .append 1 4, .append 3 5, .append 0 1]).any (fun first =>
        (first.run? [.createElement "ol" [], .createElement "li" [("id", "a")], .append 0 6, .append 6 7,
          .append 6 1, .setAttribute 1 "class" "b"]).any fun second =>
          first.children 1 = second.children 1 ∧ (∀ id ∈ first.descendants 1,
            first.children id = second.children id ∧ first.content? id = second.content? id) ∧
          first.parent? 1 = some Document.root ∧ second.previous? 1 = some 7 ∧
          group.selectAll first 1 = [2, 4]) = true := by
    decide
  obtain ⟨first, reached, ran⟩ := (Option.any_eq_true _ _).1 ran
  obtain ⟨second, moved, shape⟩ := (Option.any_eq_true _ _).1 ran
  obtain ⟨row, nodes, outside, beside, selected⟩ := of_decide_eq_true shape
  have reachable := Document.Reachable.empty.run reached
  have other := reachable.run moved
  have shared : first.SharesBelow second 1 :=
    ⟨row, fun id below => nodes id (reachable.linked.mem_descendants.2 below)⟩
  have downwards : ∀ step ∈ group.steps.head?,
      step.combinator = .descendant ∨ step.combinator = .child := by decide
  have noId : ∀ step ∈ group.steps, step.combinator = .descendant → step.compound.id = none := by decide
  have same := selectAll_eq_of_sharesBelow reachable other shared downwards noId
  exact ⟨first, second, group, reachable, other, shared, outside, beside, downwards, noId, selected,
    same.symm.trans selected⟩

end ElementQuery.Group

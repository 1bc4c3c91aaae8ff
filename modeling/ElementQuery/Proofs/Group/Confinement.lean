/-
This file shows that a group which leads downwards from its scope never leaves it again: from a node below the
scope no combinator, no id and no exchange of siblings leads to a node outside.
-/

import ElementQuery.Proofs.Group.Trail

namespace ElementQuery.Group

variable {document : Document} {scope earlier id : NodeId}

/-- What holds of the start of a trail and is kept by each of its links holds of the end. -/
theorem Trail.keeps {Link : Type} {leads : Link → NodeId → NodeId → Prop} {links : List Link}
    (inside : NodeId → Prop)
    (each : ∀ link ∈ links, ∀ {earlier id}, leads link earlier id → inside earlier → inside id)
    (trail : Trail leads links earlier id) (start : inside earlier) : inside id := by
  induction trail with
  | arrive => exact start
  | follow first _ inductionHypothesis =>
      exact inductionHypothesis (fun link member => each link (List.mem_cons_of_mem _ member))
        (each _ List.mem_cons_self first start)

/-- A step may start from a node below a scope, and from the scope itself when it leads downwards. -/
def Step.StartsWithin (document : Document) (scope earlier : NodeId) (step : Step) : Prop :=
  scope ∈ document.ancestors earlier ∨
    earlier = scope ∧ (step.combinator = .descendant ∨ step.combinator = .child)

theorem Step.StartsWithin.within {step : Step} (start : step.StartsWithin document scope earlier) :
    scope = earlier ∨ scope ∈ document.ancestors earlier :=
  start.symm.imp_left fun top => top.1.symm

/-- Only downwards can a step start from the scope itself. -/
theorem Step.StartsWithin.below_of_sideways {step : Step}
    (start : step.StartsWithin document scope earlier)
    (sideways : step.combinator = .adjacent ∨ step.combinator = .general) :
    scope ∈ document.ancestors earlier := by
  refine start.resolve_right fun top => ?_
  rcases sideways with way | way <;> simp [way] at top

/-- No combinator leads out of a scope. -/
theorem Combinator.Relates.below {step : Step} (linked : document.Linked)
    (start : step.StartsWithin document scope earlier)
    (related : step.combinator.Relates document earlier id) : scope ∈ document.ancestors id := by
  have beside : ∀ {parent before between after},
      document.children parent = before ++ earlier :: (between ++ id :: after) →
      scope ∈ document.ancestors earlier → scope ∈ document.ancestors id := by
    intro parent before between after row
    have front : earlier ∈ document.children parent := by simp [row]
    have behind : id ∈ document.children parent := by simp [row]
    exact linked.mem_ancestors_of_sibling (linked.childIff.1 front) (linked.childIff.1 behind)
  cases way : step.combinator with
  | descendant =>
      rw [way] at related
      have above := linked.mem_ancestors_iff_transGen.2 related
      rcases start.within with rfl | below
      · exact above
      · exact linked.ancestors_trans below above
  | child =>
      rw [way] at related
      exact linked.mem_ancestors.2 ⟨earlier, related, start.within⟩
  | adjacent =>
      rw [way] at related
      obtain ⟨parent, before, between, after, row, -⟩ := related
      exact beside row (start.below_of_sideways (.inl way))
  | general =>
      rw [way] at related
      obtain ⟨parent, before, between, after, row⟩ := related
      exact beside row (start.below_of_sideways (.inr way))

/-- A pseudo-class keeps an element below a scope or exchanges it for siblings, which hang there, too. -/
theorem PseudoClass.Turns.below {pseudo : PseudoClass} (linked : document.Linked)
    (turns : pseudo.Turns document earlier id) (below : scope ∈ document.ancestors earlier) :
    scope ∈ document.ancestors id := by
  unfold Turns at turns
  split at turns
  · rw [turns.1]
    exact below
  · obtain ⟨parent, before, after, owned, row, -⟩ := turns
    have child : id ∈ document.elementChildren parent := by simp [row]
    exact linked.mem_ancestors_of_sibling owned (linked.childIff.1 (List.mem_filter.1 child).1) below

/-- A step that starts within a scope leads below it. -/
theorem Step.Leads.below {step : Step} (linked : document.Linked)
    (start : step.StartsWithin document scope earlier) (leads : step.Leads document earlier id) :
    scope ∈ document.ancestors id := by
  obtain ⟨found, finds, turned⟩ := leads
  exact turned.keeps (fun id => scope ∈ document.ancestors id)
    (fun _ _ _ _ turns => turns.below linked) (finds.related.below linked start)

/-- Below every scope, a group whose first step leads to descendants or children selects only nodes that hang
strictly below the scope, whatever its other steps are. -/
theorem transGen_of_mem_selectAll (reachable : document.Reachable) {group : Group}
    (downwards : ∀ step ∈ group.steps.head?, step.combinator = .descendant ∨ step.combinator = .child)
    (member : id ∈ group.selectAll document scope) :
    Relation.TransGen (fun parent child : NodeId => document.parent? child = some parent) scope id := by
  have linked := reachable.linked
  have whole : group.isMalformed = false := by
    by_contra malformed
    rw [selectAll_eq_foldl, if_pos (by simpa using malformed)] at member
    exact absurd member List.not_mem_nil
  have trail := (mem_selectAll_iff_trail reachable whole).1 member
  refine linked.mem_ancestors_iff_transGen.1 ?_
  cases steps : group.steps with
  | nil => simp [isMalformed, steps] at whole
  | cons first rest =>
      rw [steps] at trail downwards
      obtain ⟨middle, leads, later⟩ := trail_cons_iff.1 trail
      have entered := leads.below linked (.inr ⟨rfl, downwards first rfl⟩)
      exact later.keeps (fun id => scope ∈ document.ancestors id)
        (fun _ _ _ _ leads below => leads.below linked (.inl below)) entered

/-- Below a list between two paragraphs, the id of the first item is looked up in the whole document, where the
last paragraph has it, too; the exchange for odd items and the step to later siblings stay within the list. -/
theorem transGen_of_mem_selectAll_of_exchange : ∃ document : Document, ∃ group : Group, document.Reachable ∧
    (∀ step ∈ group.steps.head?, step.combinator = .descendant ∨ step.combinator = .child) ∧
    group.selectAll document 2 = [4, 5] ∧ ∀ id ∈ [4, 5],
      Relation.TransGen (fun parent child : NodeId => document.parent? child = some parent) 2 id := by
  let group : Group := ⟨"#a:nth-child(odd) ~ *", [⟨.descendant, { id := some "a" },
    [.nth .any (.progression .odd)]⟩, ⟨.general, {}, []⟩], none⟩
  have ran : (Document.empty.run? [.createElement "p" [], .createElement "ul" [],
      .createElement "li" [("id", "a")], .createElement "li" [], .createElement "li" [],
      .createElement "p" [("id", "a")], .append 0 1, .append 0 2, .append 2 3, .append 2 4, .append 2 5,
      .append 0 6]).any (fun document => group.selectAll document 2 = [4, 5]) = true := by
    decide
  obtain ⟨document, reachable, selected⟩ := Document.exists_reachable ran
  have downwards : ∀ step ∈ group.steps.head?,
      step.combinator = .descendant ∨ step.combinator = .child := by decide
  refine ⟨document, group, reachable, downwards, selected, fun id member => ?_⟩
  exact transGen_of_mem_selectAll reachable downwards (selected ▸ member)

end ElementQuery.Group

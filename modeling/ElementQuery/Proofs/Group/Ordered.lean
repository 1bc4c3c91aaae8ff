/-
This file shows when walking along the steps of a group finds elements in document order: steps to
descendants keep the order, and steps to children keep it unless they start from an element and from
another one below it.
-/

import ElementQuery.Proofs.Document.Branches
import ElementQuery.Proofs.Group.Confinement
import ElementQuery.Proofs.Group.Distinct

namespace ElementQuery

/-- The head of a list in which every member stands before the later ones is the member that stands before
all others. -/
theorem head?_eq_some_iff_of_pairwise {A : Type} {related : A → A → Prop} {members : List A} {first : A}
    (asymmetric : ∀ {one other}, related one other → ¬ related other one)
    (ordered : members.Pairwise related) :
    members.head? = some first ↔
      first ∈ members ∧ ∀ other ∈ members, other = first ∨ related first other := by
  cases members with
  | nil => simp
  | cons head rest =>
      have leads := (List.pairwise_cons.1 ordered).1
      rw [List.head?_cons, Option.some.injEq]
      constructor
      · rintro rfl
        exact ⟨List.mem_cons_self, fun other member => (List.mem_cons.1 member).imp_right (leads other)⟩
      · rintro ⟨member, earliest⟩
        rcases List.mem_cons.1 member with same | later
        · exact same.symm
        · rcases earliest head List.mem_cons_self with same | back
          · exact same
          · exact absurd back (asymmetric (leads first later))

/-- So lists with the same members have the same head. -/
theorem head?_congr_of_pairwise {A : Type} {related : A → A → Prop} {members others : List A}
    (asymmetric : ∀ {one other}, related one other → ¬ related other one)
    (ordered : members.Pairwise related) (sorted : others.Pairwise related)
    (same : ∀ member, member ∈ members ↔ member ∈ others) : members.head? = others.head? := by
  apply Option.ext
  intro first
  rw [head?_eq_some_iff_of_pairwise asymmetric ordered, head?_eq_some_iff_of_pairwise asymmetric sorted]
  simp only [same]

namespace Document.Linked

variable {document : Document} {previous : List NodeId} {tag : String}

/-- Below nodes in document order, elements are found in document order: what is below a later node has
been found already, or stands behind all that has been found. -/
theorem pairwise_elementsByTag (linked : document.Linked) (ordered : previous.Pairwise document.Before) :
    (previous.flatMap fun earlier => document.elementsByTag earlier tag).eraseDups.Pairwise
      document.Before := by
  induction previous using List.reverseRecOn with
  | nil => exact .nil
  | append_singleton front last inductionHypothesis =>
      obtain ⟨leading, -, cross⟩ := List.pairwise_append.1 ordered
      rw [List.flatMap_append, List.flatMap_singleton, List.eraseDups_append]
      refine List.pairwise_append.2 ⟨inductionHypothesis leading, ?_, fun found left id right => ?_⟩
      · exact pairwise_eraseDups_of_pairwise
          (((linked.pairwise_descendants last).filter _).sublist List.filter_sublist)
      · obtain ⟨member, fresh⟩ := List.mem_filter.1 (List.mem_eraseDups.1 right)
        obtain ⟨below, tagged⟩ := List.mem_filter.1 member
        obtain ⟨earlier, among, scanned⟩ := List.mem_flatMap.1 (List.mem_eraseDups.1 left)
        rcases cross earlier among last (List.mem_singleton_self last) with above | precedes
        · have again : id ∈ document.elementsByTag earlier tag := by
            refine List.mem_filter.2 ⟨linked.mem_descendants.2 ?_, tagged⟩
            exact linked.ancestors_trans above (linked.mem_descendants.1 below)
          have known : id ∈ front.flatMap fun earlier => document.elementsByTag earlier tag :=
            List.mem_flatMap.2 ⟨earlier, among, again⟩
          simp only [List.elem_eq_mem, known, decide_true, Bool.not_true, Bool.false_eq_true] at fresh
        · have under := linked.mem_descendants.1 (List.mem_filter.1 scanned).1
          exact .inr (linked.precedes_below precedes (isInclusiveDescendantOf_iff.2 (.inr under))
            (isInclusiveDescendantOf_iff.2 (.inr (linked.mem_descendants.1 below))))

/-- The children of nodes in document order that do not hang below each other are in document order. -/
theorem pairwise_elementChildren (linked : document.Linked) (ordered : previous.Pairwise document.Before)
    (flat : ∀ first ∈ previous, ∀ second ∈ previous, first ∉ document.ancestors second) :
    (previous.flatMap document.elementChildren).Pairwise document.Before := by
  refine List.pairwise_flatMap.2 ⟨fun parent _ => pairwise_before_of_children List.filter_sublist, ?_⟩
  refine ordered.imp_of_mem fun {first second} one two before child left other right => ?_
  have owned := linked.childIff.1 (List.mem_filter.1 left).1
  have owns := linked.childIff.1 (List.mem_filter.1 right).1
  have precedes := before.resolve_left (flat first one second two)
  exact .inr (linked.precedes_below precedes
    (linked.isInclusiveDescendantOf_of_parent? owned isInclusiveDescendantOf_self)
    (linked.isInclusiveDescendantOf_of_parent? owns isInclusiveDescendantOf_self))

end Document.Linked

namespace Group

variable {document : Document} {step : Step} {previous : List NodeId} {scope : NodeId}

/-- A step leads downwards when it leads to descendants or children and exchanges no elements. -/
structure Step.Downwards (step : Step) : Prop where
  combinator : step.combinator = .descendant ∨ step.combinator = .child
  steady : ∀ pseudo ∈ step.pseudos, pseudo.exchange? = none

/-- No step to children starts from an element and from another one below it. -/
def Flat (document : Document) (scope : NodeId) (steps : List Step) : Prop :=
  ∀ front step back, steps = front ++ step :: back → step.combinator = .child →
    ∀ first second, Trail (Step.Leads document) front scope first →
      Trail (Step.Leads document) front scope second → first ∉ document.ancestors second

theorem flat_of_ne_child {steps : List Step} (others : ∀ step ∈ steps, step.combinator ≠ .child) :
    Flat document scope steps := by
  intro front step back split way
  exact absurd way (others step (by simp [split]))

/-- Below nodes in document order, a step to descendants reaches elements in document order; the one element that is
looked up by its id is in order on its own. -/
theorem Step.pairwise_reachBelow (linked : document.Linked) (ordered : previous.Pairwise document.Before) :
    (step.reachBelow document previous).Pairwise document.Before := by
  unfold reachBelow
  cases step.compound.id with
  | none => exact linked.pairwise_elementsByTag ordered
  | some name =>
      dsimp only
      cases Option.filter _ (document.elementById? name) with
      | none => exact .nil
      | some found => exact List.pairwise_singleton _ _

/-- A step downwards leads from nodes in document order to elements in document order. -/
theorem Step.Downwards.pairwise_follow (linked : document.Linked) (downwards : step.Downwards)
    (ordered : previous.Pairwise document.Before)
    (flat : step.combinator = .child →
      ∀ first ∈ previous, ∀ second ∈ previous, first ∉ document.ancestors second) :
    (step.follow document previous).Pairwise document.Before := by
  have reached : (step.reach document previous).Pairwise document.Before := by
    unfold reach
    rcases downwards.combinator with way | way
    · simp only [way]
      exact pairwise_reachBelow linked ordered
    · simp only [way]
      exact (linked.pairwise_elementChildren ordered (flat way)).sublist List.filter_sublist
  rw [follow, foldl_apply_eq_filter document step.pseudos _ downwards.steady]
  exact reached.sublist (List.filter_sublist.trans List.filter_sublist)

/-- Steps downwards lead from a scope to elements in document order, as long as they are flat. -/
theorem pairwise_foldl_follow (linked : document.Linked) {steps : List Step}
    (downwards : ∀ step ∈ steps, step.Downwards) (flat : Flat document scope steps) :
    (steps.foldl (Step.follow document) [scope]).Pairwise document.Before := by
  induction steps using List.reverseRecOn with
  | nil => exact List.pairwise_singleton _ _
  | append_singleton front last inductionHypothesis =>
      have leading := inductionHypothesis (fun step member => downwards step (by simp [member]))
        fun before step back split => flat before step (back ++ [last]) (by simp [split])
      rw [List.foldl_append]
      refine (downwards last (by simp)).pairwise_follow linked leading fun way first one second two => ?_
      have trail : ∀ {id}, id ∈ front.foldl (Step.follow document) [scope] →
          Trail (Step.Leads document) front scope id := fun member => by
        simpa using (mem_foldl_follow_iff_trail linked).1 member
      exact flat front last [] rfl way first second (trail one) (trail two)

/-- Steps downwards, if there are any, lead below the scope. -/
theorem below_of_mem_foldl_follow (linked : document.Linked) {steps : List Step} {id : NodeId}
    (downwards : ∀ step ∈ steps, step.Downwards) (nonempty : steps ≠ [])
    (member : id ∈ steps.foldl (Step.follow document) [scope]) : scope ∈ document.ancestors id := by
  induction steps using List.reverseRecOn generalizing id with
  | nil => exact absurd rfl nonempty
  | append_singleton front last inductionHypothesis =>
      rw [List.foldl_append] at member
      obtain ⟨earlier, among, leads⟩ := (Step.mem_follow_iff_leads linked).1 member
      refine leads.below linked ?_
      by_cases start : front = []
      · subst start
        exact .inr ⟨List.mem_singleton.1 among, (downwards last (by simp)).combinator⟩
      · exact .inl (inductionHypothesis (fun step inside => downwards step (by simp [inside])) start among)

/-- A tag name on its own leads from a scope to the elements of this name below it. -/
theorem follow_tag (linked : document.Linked) (scope : NodeId) (tag : String) :
    Step.follow document [scope] { combinator := .descendant, compound := { tag } } =
      document.elementsByTag scope tag := by
  have distinct : (document.elementsByTag scope tag).Nodup := (linked.nodup_descendants scope).filter _
  have passes : ∀ id ∈ document.elementsByTag scope tag,
      Step.passes document { combinator := .descendant, compound := { tag } } id = true := by
    intro id member
    obtain ⟨element, held⟩ := Option.isSome_iff_exists.1
      (Document.isElement_of_hasTag (List.mem_filter.1 member).2)
    simp [Step.passes, Compound.filtersHold, held]
  simpa [Step.follow, Step.reach, Step.reachBelow, eraseDups_of_nodup distinct, List.filter_eq_self] using passes

/-- Steps to descendants that exchange nothing select nodes below the scope, in the order of their tree and each
before the next. A tag name on its own selects the elements of this name among the descendants of the scope, as they
stand there. -/
theorem selectAll_in_treeOrder (reachable : document.Reachable) {group : Group} (whole : group.isMalformed = false)
    (below : ∀ step ∈ group.steps, step.combinator = .descendant)
    (steady : ∀ step ∈ group.steps, ∀ formula, PseudoClass.nth .any (.progression formula) ∉ step.pseudos)
    (scope : NodeId) :
    ((group.selectAll document scope).Pairwise fun first second =>
        document.compareOrder first second = .lt) ∧
      (group.selectAll document scope).Sublist (document.descendants scope) ∧
      ∀ tag, group.steps = [{ combinator := .descendant, compound := { tag } }] →
        group.selectAll document scope =
          (document.descendants scope).filter fun id => document.hasTag id tag := by
  have linked := reachable.linked
  have downwards : ∀ step ∈ group.steps, step.Downwards := by
    intro step member
    refine ⟨.inl (below step member), fun pseudo held => Option.eq_none_iff_forall_ne_some.2 ?_⟩
    intro formula exchange
    exact steady step member formula (eq_nth_of_exchange? exchange ▸ held)
  have selected : group.selectAll document scope = group.steps.foldl (Step.follow document) [scope] := by
    rw [selectAll_eq_foldl, if_neg (by simp [whole])]
  have nonempty : group.steps ≠ [] := by
    intro stepless
    simp [isMalformed, stepless] at whole
  have flat : Flat document scope group.steps :=
    flat_of_ne_child fun step member way => by simp [below step member] at way
  have ordered := pairwise_foldl_follow linked downwards flat
  rw [selected]
  refine ⟨ordered.imp fun before => (linked.compareOrder_of_before before).1, ?_, fun tag alone => ?_⟩
  · exact linked.sublist_of_pairwise_before ordered (linked.pairwise_descendants scope) fun id member =>
      linked.mem_descendants.2 (below_of_mem_foldl_follow linked downwards nonempty member)
  · rw [alone]
    exact follow_tag linked scope tag

/-- Below nested lists, the outer of which is found by an id above it, the first items are selected, the outer one
before the inner one that is older; and all items are selected by their tag name. -/
theorem selectAll_in_treeOrder_of_lists : ∃ document : Document, ∃ group items : Group, document.Reachable ∧
    (∀ step ∈ group.steps, step.combinator = .descendant) ∧
    group.selectAll document Document.root = [6, 5] ∧ document.compareOrder 6 5 = .lt ∧
    [6, 5].Sublist (document.descendants Document.root) ∧
    items.selectAll document Document.root =
      (document.descendants Document.root).filter fun id => document.hasTag id "li" := by
  let group : Group := ⟨"#a ul li:nth-child(1)", [⟨.descendant, { id := some "a" }, []⟩,
    ⟨.descendant, { tag := "ul" }, []⟩, ⟨.descendant, { tag := "li" }, [.nth .any (.position 1)]⟩], none⟩
  let items : Group := ⟨"li", [⟨.descendant, { tag := "li" }, []⟩], none⟩
  have ran : (Document.empty.run? [.createElement "div" [("id", "a")], .createElement "ul" [],
      .createElement "li" [], .createElement "ul" [], .createElement "li" [], .createElement "li" [],
      .append 0 1, .append 1 2, .append 2 6, .append 2 3, .append 3 4, .append 4 5]).any (fun document =>
        group.selectAll document Document.root = [6, 5]) = true := by
    decide
  obtain ⟨document, reachable, selected⟩ := Document.exists_reachable ran
  have below : ∀ step ∈ group.steps, step.combinator = .descendant := by decide
  obtain ⟨ordered, inside, -⟩ :=
    @selectAll_in_treeOrder document reachable group rfl below (by simp [group]) Document.root
  obtain ⟨-, -, tagged⟩ :=
    @selectAll_in_treeOrder document reachable items rfl (by decide) (by simp [items]) Document.root
  rw [selected] at ordered inside
  exact ⟨document, group, items, reachable, below, selected, (List.pairwise_cons.1 ordered).1 5 (by simp),
    inside, tagged "li" rfl⟩

end Group

end ElementQuery

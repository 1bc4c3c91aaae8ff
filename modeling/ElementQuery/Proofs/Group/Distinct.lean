/-
This file shows that a group selects no element twice: whatever is reached over several earlier elements is
kept once, and where a combinator keeps no record of what it has reached, different elements lead to different
ones.
-/

import ElementQuery.Proofs.Group.Cache
import ElementQuery.Proofs.Selector.Chain
import Mathlib.Data.List.Induction

namespace ElementQuery

section Repetitions

variable {A : Type} [DecidableEq A] {related : A → A → Prop}

/-- What comes last is kept if it has not come before. -/
theorem eraseDups_concat (front : List A) (last : A) :
    (front ++ [last]).eraseDups = if last ∈ front then front.eraseDups else front.eraseDups ++ [last] := by
  rw [List.eraseDups_append, List.removeAll]
  split <;> rename_i known <;> simp [known, List.eraseDups_cons]

/-- Without repetitions a list keeps a relation in which every new member stands to the members before it. -/
theorem pairwise_eraseDups {members : List A}
    (fresh : ∀ front last back, members = front ++ last :: back → last ∉ front →
      ∀ earlier ∈ front, related earlier last) : members.eraseDups.Pairwise related := by
  induction members using List.reverseRecOn with
  | nil => exact .nil
  | append_singleton front last inductionHypothesis =>
      have leading := inductionHypothesis fun before next back split =>
        fresh before next (back ++ [last]) (by simp [split])
      rw [eraseDups_concat]
      split
      · exact leading
      · rename_i new
        refine List.pairwise_append.2 ⟨leading, List.pairwise_singleton _ _, fun earlier member => ?_⟩
        exact List.forall_mem_singleton.2
          (fresh front last [] rfl new earlier (List.mem_eraseDups.1 member))

/-- A list that keeps a relation keeps it without its repetitions. -/
theorem pairwise_eraseDups_of_pairwise {members : List A} (ordered : members.Pairwise related) :
    members.eraseDups.Pairwise related := by
  refine pairwise_eraseDups fun front last back split _ earlier member => ?_
  rw [split] at ordered
  exact (List.pairwise_append.1 ordered).2.2 earlier member last List.mem_cons_self

theorem nodup_eraseDups (members : List A) : members.eraseDups.Nodup :=
  pairwise_eraseDups fun _ _ _ _ new _ member same => new (same ▸ member)

theorem eraseDups_of_nodup {members : List A} (distinct : members.Nodup) : members.eraseDups = members := by
  induction members using List.reverseRecOn with
  | nil => rfl
  | append_singleton front last inductionHypothesis =>
      obtain ⟨leading, -, apart⟩ := List.nodup_append.1 distinct
      have new : last ∉ front := fun known => apart last known last (by simp) rfl
      rw [eraseDups_concat, if_neg new, inductionHypothesis leading]

end Repetitions

namespace Document.Linked

variable {document : Document} {previous : List NodeId} {first second id : NodeId}

/-- Different parents have different children. -/
theorem nodup_flatMap_elementChildren (linked : document.Linked) (distinct : previous.Nodup) :
    (previous.flatMap document.elementChildren).Nodup := by
  refine List.nodup_flatMap.2 ⟨fun parent _ => linked.nodup_elementChildren, ?_⟩
  refine distinct.imp fun different child one two => different ?_
  have owned := linked.childIff.1 (List.mem_filter.1 one).1
  have owns := linked.childIff.1 (List.mem_filter.1 two).1
  exact Option.some.inj (owned.symm.trans owns)

/-- An element is the next one of at most one element, which is the nearest before it. -/
theorem nextElement?_injective (linked : document.Linked) (one : document.isElement first = true)
    (two : document.isElement second = true) (next : document.nextElement? first = some id)
    (beside : document.nextElement? second = some id) : first = second := by
  have nearest : ∀ {other}, document.isElement other = true → document.nextElement? other = some id →
      document.previousElement? id = some other := by
    intro other element found
    have joins : Selector.Combinator.nextSibling.Joins document id other :=
      ⟨element, ((Group.nextElement?_eq_some_iff linked).1 found).2⟩
    exact Option.mem_toList.1 ((Selector.mem_candidates_iff_joins linked).2 joins)
  exact Option.some.inj ((nearest one next).symm.trans (nearest two beside))

end Document.Linked

namespace Group

variable {document : Document} {step : Step} {previous : List NodeId}

/-- No node comes twice, and all of several nodes are elements. A scope alone need not be an element. -/
structure Distinct (document : Document) (nodes : List NodeId) : Prop where
  nodup : nodes.Nodup
  elements : ∀ first ∈ nodes, ∀ second ∈ nodes, first ≠ second →
    document.isElement first = true ∧ document.isElement second = true

theorem Distinct.single (id : NodeId) : Distinct document [id] := by
  refine ⟨List.nodup_singleton id, fun first one second two different => ?_⟩
  rw [List.mem_singleton.1 one, List.mem_singleton.1 two] at different
  exact absurd rfl different

theorem Distinct.of_elements {nodes : List NodeId} (nodup : nodes.Nodup)
    (elements : ∀ id ∈ nodes, document.isElement id = true) : Distinct document nodes :=
  ⟨nodup, fun first one second two _ => ⟨elements first one, elements second two⟩⟩

/-- Different nodes, of which only one may be no element, have different next elements. -/
theorem Distinct.nodup_filterMap_nextElement? (linked : document.Linked)
    (distinct : Distinct document previous) :
    (previous.filterMap document.nextElement?).Nodup := by
  refine List.pairwise_filterMap.2 (distinct.nodup.imp_of_mem ?_)
  rintro first second one two different id next _ beside rfl
  obtain ⟨element, other⟩ := distinct.elements first one second two different
  exact different (linked.nextElement?_injective element other next beside)

/-- No combinator reaches a node twice. -/
theorem Step.nodup_reach (linked : document.Linked) (distinct : Distinct document previous) :
    (step.reach document previous).Nodup := by
  unfold reach
  cases step.combinator with
  | descendant =>
      show (step.reachBelow document previous).Nodup
      unfold reachBelow
      split
      · exact Option.toList_nodup _
      · exact nodup_eraseDups _
  | child => exact (linked.nodup_flatMap_elementChildren distinct.nodup).filter _
  | adjacent => exact (distinct.nodup_filterMap_nextElement? linked).filter _
  | general => exact nodup_eraseDups _

/-- A pseudo-class keeps elements that are distinct, or exchanges them for such. -/
theorem PseudoClass.distinct_apply {pseudo : PseudoClass} {candidates : List NodeId}
    (nodup : candidates.Nodup) (elements : ∀ id ∈ candidates, document.isElement id = true) :
    (pseudo.apply document candidates).Nodup ∧
      ∀ id ∈ pseudo.apply document candidates, document.isElement id = true := by
  unfold apply
  split
  · refine ⟨nodup_eraseDups _, fun id member => ?_⟩
    obtain ⟨candidate, -, exchanged⟩ := exists_of_mem_exchangeAll (List.mem_eraseDups.1 member)
    obtain ⟨parent, before, after, -, row, -⟩ := mem_siblingsAt_iff.1 exchanged
    have child : id ∈ document.elementChildren parent := by simp [row]
    exact (List.mem_filter.1 child).2
  · exact ⟨nodup.filter _, fun id member => elements id (List.mem_filter.1 member).1⟩

/-- Several pseudo-classes leave distinct elements, even when more than one exchanges them. -/
theorem distinct_foldl_apply {pseudos : List PseudoClass} {candidates : List NodeId}
    (nodup : candidates.Nodup) (elements : ∀ id ∈ candidates, document.isElement id = true) :
    Distinct document (pseudos.foldl (PseudoClass.apply document) candidates) := by
  induction pseudos generalizing candidates with
  | nil => exact .of_elements nodup elements
  | cons pseudo rest inductionHypothesis =>
      obtain ⟨kept, still⟩ := @PseudoClass.distinct_apply document pseudo candidates nodup elements
      exact inductionHypothesis kept still

/-- A step leads from distinct nodes to distinct elements. -/
theorem Step.distinct_follow (linked : document.Linked) (distinct : Distinct document previous) :
    Distinct document (step.follow document previous) := by
  refine distinct_foldl_apply ((step.nodup_reach linked distinct).filter _) fun id member => ?_
  obtain ⟨element, held, -⟩ := passes_iff.1 (List.mem_filter.1 member).2
  exact Document.isElement_iff.2 ⟨element, held⟩

/-- So do several steps, one after the other. -/
theorem distinct_foldl_follow (linked : document.Linked) {steps : List Step}
    (distinct : Distinct document previous) :
    Distinct document (steps.foldl (Step.follow document) previous) := by
  induction steps generalizing previous with
  | nil => exact distinct
  | cons step rest inductionHypothesis => exact inductionHypothesis (step.distinct_follow linked distinct)

/-- No group selects an element twice below a scope, whether or not the scope is an element. -/
theorem nodup_selectAll (reachable : document.Reachable) (scope : NodeId) (group : Group) :
    (group.selectAll document scope).Nodup := by
  rw [selectAll_eq_foldl]
  split
  · exact List.nodup_nil
  · exact (distinct_foldl_follow reachable.linked (.single scope)).nodup

/-- The third of three items is reached from both items before it, and both later items are exchanged twice for
the items at odd positions; each of these is selected once. -/
theorem nodup_selectAll_of_exchanges : ∃ document : Document, ∃ group : Group, document.Reachable ∧
    group.selectAll document Document.root = [2, 4] ∧
    (group.selectAll document Document.root).Nodup := by
  let odd : PseudoClass := .nth .any (.progression .odd)
  let group : Group := ⟨"li ~ li:nth-child(odd):nth-child(odd)",
    [⟨.descendant, { tag := "li" }, []⟩, ⟨.general, { tag := "li" }, [odd, odd]⟩], none⟩
  have ran : (Document.empty.run? [.createElement "ul" [], .createElement "li" [],
      .createElement "li" [], .createElement "li" [], .append 0 1, .append 1 2, .append 1 3,
      .append 1 4]).any (fun document => group.selectAll document Document.root = [2, 4]) = true := by
    decide
  obtain ⟨document, reachable, selected⟩ := Document.exists_reachable ran
  exact ⟨document, group, reachable, selected, nodup_selectAll reachable Document.root group⟩

end Group

end ElementQuery

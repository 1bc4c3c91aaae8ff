/-
This file shows that the element children that are kept change nothing: a group selects what it would select if
they were collected anew at each step, and if no step were left out.
-/

import ElementQuery.Group.Cache

namespace ElementQuery.Group

variable {document : Document} {previous candidates nodes : List NodeId} {id : NodeId}

/-- Every entry of the cache holds the element children of its parent. -/
def SiblingCache.Faithful (document : Document) (cache : SiblingCache) : Prop :=
  ∀ entry ∈ cache, entry.2 = document.elementChildren entry.1

section Empty

/-- From nowhere no step leads anywhere. -/
theorem Step.reach_nil (step : Step) : step.reach document [] = [] := by
  unfold reach
  cases step.combinator with
  | descendant =>
      show step.reachBelow document [] = []
      cases named : step.compound.id <;> simp [reachBelow, named]
  | child | adjacent | general => rfl

theorem foldl_apply_nil (pseudos : List PseudoClass) :
    pseudos.foldl (PseudoClass.apply document) [] = [] := by
  induction pseudos with
  | nil => rfl
  | cons pseudo rest inductionHypothesis =>
      have nothing : pseudo.apply document [] = [] := by
        unfold PseudoClass.apply
        cases pseudo.exchange? <;> rfl
      rw [List.foldl_cons, nothing, inductionHypothesis]

theorem foldl_follow_nil (steps : List Step) : steps.foldl (Step.follow document) [] = [] := by
  induction steps with
  | nil => rfl
  | cons step rest inductionHypothesis =>
      rw [List.foldl_cons, Step.follow, Step.reach_nil, List.filter_nil, foldl_apply_nil, inductionHypothesis]

theorem Step.followFirst_nil (step : Step) : step.followFirst document [] = none := by
  unfold followFirst
  rw [follow, reach_nil, List.filter_nil, foldl_apply_nil]
  split <;> rfl

end Empty

namespace Cached

/-- Whatever a faithful cache holds, a computation yields a value and leaves the cache faithful. -/
def Yields (document : Document) {A : Type} (computation : Cached A) (value : A) : Prop :=
  ∀ cache : SiblingCache, cache.Faithful document →
    (computation.run cache).1 = value ∧ SiblingCache.Faithful document (computation.run cache).2

variable {A B : Type} {computation : Cached A} {next : A → Cached B} {value : A} {result : B}

theorem Yields.pure (value : A) : Yields document (pure value) value :=
  fun _ faithful => ⟨rfl, faithful⟩

theorem Yields.bind (first : Yields document computation value)
    (second : Yields document (next value) result) : Yields document (computation >>= next) result := by
  intro cache faithful
  obtain ⟨same, kept⟩ := first cache faithful
  subst same
  exact second _ kept

/-- The value of a computation is only looked at. -/
theorem Yields.map (first : Yields document computation value) (look : A → B) :
    Yields document (do return look (← computation)) (look value) :=
  first.bind (.pure _)

section Loops

variable {test : NodeId → Cached Bool} {keeps : NodeId → Bool}
  (each : ∀ id, Yields document (test id) (keeps id))

include each

theorem yields_filterM (nodes : List NodeId) :
    Yields document (nodes.filterM test) (nodes.filter keeps) := by
  have collected : ∀ kept : List NodeId, Yields document (nodes.filterAuxM test kept)
      ((nodes.filter keeps).reverse ++ kept) := by
    induction nodes with
    | nil => exact .pure
    | cons id rest inductionHypothesis =>
        intro kept
        refine (each id).bind ?_
        cases keep : keeps id with
        | true =>
            rw [List.filter_cons_of_pos keep, List.reverse_cons, List.append_assoc]
            exact inductionHypothesis (id :: kept)
        | false =>
            rw [List.filter_cons_of_neg (by simp [keep])]
            exact inductionHypothesis kept
  have whole := (collected []).map List.reverse
  rwa [List.append_nil, List.reverse_reverse] at whole

theorem yields_findM? (nodes : List NodeId) :
    Yields document (nodes.findM? test) (nodes.find? keeps) := by
  induction nodes with
  | nil => exact .pure _
  | cons id rest inductionHypothesis =>
      refine (each id).bind ?_
      cases kept : keeps id with
      | true =>
          rw [List.find?_cons_of_pos kept]
          exact .pure _
      | false =>
          rw [List.find?_cons_of_neg (by simp [kept])]
          exact inductionHypothesis

end Loops

theorem yields_allM {holds : PseudoClass → Cached Bool} {held : PseudoClass → Bool}
    (each : ∀ pseudo, Yields document (holds pseudo) (held pseudo)) (pseudos : List PseudoClass) :
    Yields document (pseudos.allM holds) (pseudos.all held) := by
  induction pseudos with
  | nil => exact .pure _
  | cons pseudo rest inductionHypothesis =>
      refine (each pseudo).bind ?_
      rw [List.all_cons]
      cases held pseudo with
      | true => exact inductionHypothesis
      | false => exact .pure _

/-- What is looked up are the element children, and what is added to the cache are these. -/
theorem yields_elementChildren (parent : NodeId) :
    Yields document (elementChildren document parent) (document.elementChildren parent) := by
  intro cache faithful
  cases found : cache.lookup parent with
  | none =>
      have run : (elementChildren document parent).run cache =
          (document.elementChildren parent, (parent, document.elementChildren parent) :: cache) := by
        simp [elementChildren, found]
        rfl
      rw [run]
      exact ⟨rfl, List.forall_mem_cons.2 ⟨rfl, faithful⟩⟩
  | some children =>
      have run : (elementChildren document parent).run cache = (children, cache) := by
        simp [elementChildren, found]
        rfl
      rw [run]
      obtain ⟨before, after, rfl, -⟩ := List.lookup_eq_some_iff.1 found
      exact ⟨faithful (parent, children) (by simp), faithful⟩

theorem yields_ofTypePosition? (id : NodeId) :
    Yields document (ofTypePosition? document id) (Group.ofTypePosition? document id) := by
  unfold ofTypePosition? Group.ofTypePosition?
  cases document.parent? id with
  | none => exact .pure _
  | some parent => exact (yields_elementChildren parent).map _

theorem yields_isNthChild (id : NodeId) (argument : Argument) :
    Yields document (isNthChild document id argument) ((document.parent? id).any fun parent =>
      argument.picks (document.elementChildren parent) id) := by
  unfold isNthChild
  cases document.parent? id with
  | none => exact .pure _
  | some parent => exact (yields_elementChildren parent).map _

theorem yields_holds (id : NodeId) (pseudo : PseudoClass) :
    Yields document (holds document id pseudo) (pseudo.holds document id) := by
  cases pseudo with
  | first kin | last kin | only kin =>
      cases kin with
      | any => exact .pure _
      | sameTag => exact (yields_ofTypePosition? id).map _
  | nth kin argument =>
      cases kin with
      | any =>
          cases argument with
          | every => exact .pure _
          | position k | progression held => exact yields_isNthChild id _
      | sameTag => exact (yields_ofTypePosition? id).map _
  | empty | contains text | enabled | disabled | checked | negation compound => exact .pure _

theorem yields_exchangeAll (progression : Progression) (scanned : List (NodeId × String))
    (candidates : List NodeId) :
    Yields document (exchangeAll document progression scanned candidates)
      (Group.exchangeAll document progression scanned candidates) := by
  induction candidates generalizing scanned with
  | nil => exact .pure _
  | cons candidate rest inductionHypothesis =>
      rw [exchangeAll, Group.exchangeAll]
      cases found : siblingRow? document candidate with
      | none => exact inductionHypothesis scanned
      | some row =>
          obtain ⟨parent, owned, inner⟩ := Option.bind_eq_some_iff.1 found
          obtain ⟨tag, -, rfl⟩ := Option.map_eq_some_iff.1 inner
          rw [siblingsAt, owned, Option.toList_some, List.flatMap_singleton]
          dsimp only
          split
          · exact inductionHypothesis scanned
          · exact (yields_elementChildren parent).bind ((inductionHypothesis _).map _)

theorem yields_apply (candidates : List NodeId) (pseudo : PseudoClass) :
    Yields document (apply document candidates pseudo) (pseudo.apply document candidates) := by
  unfold apply PseudoClass.apply
  cases pseudo.exchange? with
  | none => exact yields_filterM (fun id => yields_holds id pseudo) candidates
  | some progression => exact (yields_exchangeAll progression [] candidates).map _

/-- Pseudo-classes that are not applied to no candidates would find none. -/
theorem yields_applyAll (candidates : List NodeId) (pseudos : List PseudoClass) :
    Yields document (applyAll document candidates pseudos)
      (pseudos.foldl (PseudoClass.apply document) candidates) := by
  induction pseudos generalizing candidates with
  | nil => exact .pure _
  | cons pseudo rest inductionHypothesis =>
      rw [applyAll]
      split
      · rename_i empty
        obtain rfl := List.isEmpty_iff.1 empty
        rw [foldl_apply_nil]
        exact .pure _
      · exact (yields_apply candidates pseudo).bind (inductionHypothesis _)

theorem yields_follow (previous : List NodeId) (step : Step) :
    Yields document (follow document previous step) (step.follow document previous) :=
  yields_applyAll _ _

/-- Steps that are not followed from nowhere would lead nowhere. -/
theorem yields_followAll (previous : List NodeId) (steps : List Step) :
    Yields document (followAll document previous steps)
      (steps.foldl (Step.follow document) previous) := by
  induction steps generalizing previous with
  | nil => exact .pure _
  | cons step rest inductionHypothesis =>
      refine (yields_follow previous step).bind ?_
      split
      · rename_i empty
        rw [List.foldl_cons, List.isEmpty_iff.1 empty, foldl_follow_nil]
        exact .pure _
      · exact inductionHypothesis _

theorem yields_followFirst (previous : List NodeId) (step : Step) :
    Yields document (followFirst document previous step) (step.followFirst document previous) := by
  unfold followFirst Step.followFirst
  split
  · exact (yields_follow previous step).map _
  · refine yields_findM? (fun id => ?_) _
    cases step.passes document id with
    | true => exact yields_allM (yields_holds id) step.pseudos
    | false => exact .pure _

theorem yields_followToFirst (scope : NodeId) (leading : List Step) (last : Step) :
    Yields document (followToFirst document scope leading last)
      (last.followFirst document (leading.foldl (Step.follow document) [scope])) := by
  refine (yields_followAll [scope] leading).bind ?_
  split
  · rename_i empty
    rw [List.isEmpty_iff.1 empty, Step.followFirst_nil]
    exact .pure _
  · exact yields_followFirst _ last

end Cached

variable (document : Document) (scope : NodeId) (group : Group)

/-- A group that is well formed selects that to which its steps lead one after the other. -/
theorem selectAll_eq_foldl : selectAll document scope group =
    if group.isMalformed then [] else group.steps.foldl (Step.follow document) [scope] := by
  unfold selectAll
  split
  · rfl
  · exact (Cached.yields_followAll [scope] group.steps [] nofun).1

/-- The first element that it selects is the first to which its last step leads behind the others. -/
theorem selectFirst_eq_foldl : selectFirst document scope group =
    if group.isMalformed then none
    else group.steps.getLast?.bind fun last =>
      last.followFirst document (group.steps.dropLast.foldl (Step.follow document) [scope]) := by
  unfold selectFirst
  split
  · rfl
  · cases group.steps.getLast? with
    | none => rfl
    | some last => exact (Cached.yields_followToFirst scope group.steps.dropLast last [] nofun).1

end ElementQuery.Group

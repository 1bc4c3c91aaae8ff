/-
This file shows that every backend finds as the first element of a query the head of all its elements,
although the first element is searched for in a way of its own.
-/

import ElementQuery.Engine.Basic
import ElementQuery.Proofs.Group.Cache
import ElementQuery.Proofs.Group.Following

namespace ElementQuery

namespace Group

/-- The first element to which a step leads is the head of those to which it leads. -/
theorem Step.followFirst_eq_head? (document : Document) (previous : List NodeId) (step : Step) :
    step.followFirst document previous = (step.follow document previous).head? := by
  unfold followFirst
  split
  · rfl
  · rename_i steady
    have still : ∀ pseudo ∈ step.pseudos, pseudo.exchange? = none := by
      intro pseudo member
      apply Option.not_isSome_iff_eq_none.1
      intro exchanges
      exact steady (List.any_eq_true.2 ⟨pseudo, member, exchanges⟩)
    rw [follow, foldl_apply_eq_filter document step.pseudos _ still, List.filter_filter,
      List.head?_filter]
    simp only [Bool.and_comm]

/-- The first element that a group selects is the head of those that it selects. -/
theorem selectFirst_eq_head? (document : Document) (scope : NodeId) (group : Group) :
    group.selectFirst document scope = (group.selectAll document scope).head? := by
  rw [selectFirst_eq_foldl, selectAll_eq_foldl]
  split
  · rfl
  · rename_i sound
    rcases List.eq_nil_or_concat group.steps with none | ⟨front, last, steps⟩
    · exact absurd (by simp [isMalformed, none]) sound
    · rw [steps, List.concat_eq_append, List.foldl_append]
      simpa using last.followFirst_eq_head? document (front.foldl (Step.follow document) [scope])

end Group

namespace Engine

/-- Groups are asked in order until one yields an element, which is the head of what all yield. -/
theorem askFirst_value (evaluator : PathEvaluator) (document : Document) (scope : NodeId)
    (groups : List Group) :
    (askFirst evaluator document scope groups).value =
      (askAll evaluator document scope groups).value.head? := by
  induction groups with
  | nil => rfl
  | cons group rest inductionHypothesis =>
      rw [askFirst, askAll]
      simp only [Served.bind_value, Served.pure_value]
      cases (askPath evaluator document scope group).value with
      | nil => exact inductionHypothesis
      | cons id others => rfl

/-- A matcher whose first element is the head of all is warned of in the same cases. -/
theorem askNative_value {query : String} {all : Except Selector.Error (List NodeId)} :
    (askNative query none (all.map List.head?)).value = (askNative query [] all).value.head? := by
  cases all <;> rfl

/-- On every backend of a full host, a query either fails for its scope, or finds as its first element
the head of all elements; so does every group that is walked. -/
theorem selectFirst_head_of_selectAll (backend : Backend) (document : Document) (scope : NodeId)
    (query : String) (group : Group) :
    (∃ engine, onBackend backend Host.full = .ok engine ∧ engine.backend = backend ∧
      (engine.selectFirst document scope query = .error (.invalidScope scope) ∧
          engine.selectAll document scope query = .error (.invalidScope scope) ∨
        ∃ first all, engine.selectFirst document scope query = .ok first ∧
          engine.selectAll document scope query = .ok all ∧ first.value = all.value.head?)) ∧
    group.selectFirst document scope = (group.selectAll document scope).head? := by
  refine ⟨?_, group.selectFirst_eq_head? document scope⟩
  have searched : ∀ engine : Engine,
      (engine.searchFirst document scope query).value =
        (engine.searchAll document scope query).value.head? →
      (engine.selectFirst document scope query = .error (.invalidScope scope) ∧
          engine.selectAll document scope query = .error (.invalidScope scope) ∨
        ∃ first all, engine.selectFirst document scope query = .ok first ∧
          engine.selectAll document scope query = .ok all ∧ first.value = all.value.head?) := by
    intro engine agree
    unfold selectFirst selectAll
    split
    · exact .inr ⟨_, _, rfl, rfl, agree⟩
    · exact .inl ⟨rfl, rfl⟩
  cases backend with
  | native =>
      refine ⟨.native .strict, rfl, rfl, searched _ ?_⟩
      rw [searchFirst, searchAll, NativeMatcher.strict]
      simp only [Selector.selectFirst_eq_head]
      exact askNative_value
  | path =>
      refine ⟨.path .standard, rfl, rfl, searched _ ?_⟩
      simp only [searchFirst, searchAll, Served.bind_value]
      exact askFirst_value _ _ _ _
  | walker =>
      refine ⟨.walker, rfl, rfl, searched _ ?_⟩
      have heads : Group.selectFirst document scope = fun group =>
          (Group.selectAll document scope group).head? :=
        funext (Group.selectFirst_eq_head? document scope)
      simp only [searchFirst, searchAll, Served.bind_value, Served.pure_value,
        List.head?_flatMap, heads]

end Engine

end ElementQuery

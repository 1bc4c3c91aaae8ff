/-
This file shows that predicates one after the other keep what their conjunction keeps, in whatever order
they stand, when none of them asks for places.
-/

import ElementQuery.Proofs.Document.Reachable
import ElementQuery.Proofs.Path.Meaning

namespace ElementQuery.Path

mutual

/-- An expression asks for places when it calls one of the two functions that know them. A predicate
inside it has places of its own, so that it may ask for those. -/
def Expression.asksForPlace : Expression → Bool
  | .call name arguments => name == "position" || name == "last" || someAsksForPlace arguments
  | .union left right | .binary _ left right => left.asksForPlace || right.asksForPlace
  | .path base _ | .filter base _ => base.asksForPlace
  | .negate operand => operand.asksForPlace
  | .root | .context | .parent | .number _ | .literal _ | .step _ => false

def someAsksForPlace : List Expression → Bool
  | [] => false
  | expression :: rest => expression.asksForPlace || someAsksForPlace rest

end

/-- The truth of a predicate at a node that stands alone. -/
def Context.holdsAt (context : Context) (predicate : Expression) (id : NodeId) : Bool :=
  match evaluate (context.moved id 1 1) predicate with
  | .ok value => value.toBoolean
  | .error _ => false

/-- A predicate judges nodes when it has a value at each of them, which is no number. -/
def Context.Judges (context : Context) (predicate : Expression) (ids : List NodeId) : Prop :=
  ∀ id ∈ ids, ∃ position size value,
    evaluate (context.moved id position size) predicate = .ok value ∧ value.isNumber = false

variable {context : Context} {expression predicate first second : Expression} {ids : List NodeId}
  {id node : NodeId} {position size place count : Nat}

section Places

/-- Only two functions look at the place of the context. -/
theorem apply_moved {function : Function} (other : function ≠ .position ∧ function ≠ .last)
    (arguments : List Value) :
    function.apply (context.moved context.node position size) arguments =
      function.apply context arguments := by
  cases function with
  | position => exact absurd rfl other.1
  | last => exact absurd rfl other.2
  | _ => rfl

/-- The two functions that look at the place have one name each. -/
theorem function_ne_of_name {name : String} {function : Function}
    (known : Function.ofName? name = some function) (other : name ≠ "position" ∧ name ≠ "last") :
    function ≠ .position ∧ function ≠ .last := by
  have each : ∀ entry ∈ Function.named, entry.1 ≠ "position" ∧ entry.1 ≠ "last" →
      entry.2 ≠ .position ∧ entry.2 ≠ .last := by
    decide
  obtain ⟨entry, found, rfl⟩ := Option.map_eq_some_iff.1 known
  have title : entry.1 = name := by simpa using List.find?_some found
  exact each entry (List.mem_of_find?_eq_some found) (title ▸ other)

/-- Predicates are tried at the places that their own candidates have. -/
theorem filterAll_moved (predicates : List Expression) (ids : List NodeId) :
    filterAll (context.moved node position size) predicates ids = filterAll context predicates ids := by
  induction predicates generalizing ids with
  | nil => rw [filterAll, filterAll]
  | cons predicate rest inductionHypothesis =>
      rw [filterAll, filterAll]
      congr 1
      funext kept
      exact inductionHypothesis kept

theorem followStep_moved (starts : List NodeId) (step : Step Expression) :
    followStep (context.moved node position size) starts step = followStep context starts step := by
  obtain ⟨axis, test, predicates⟩ := step
  simp only [followStep, filterAll_moved]
  rfl

mutual

/-- An expression that does not ask for places has one value at all places of a node. -/
theorem evaluate_moved : ∀ expression : Expression, expression.asksForPlace = false →
    evaluate (context.moved context.node position size) expression = evaluate context expression
  | .root, _ | .context, _ | .parent, _ | .number _, _ | .literal _, _ => by
      rw [evaluate, evaluate]
      try rfl
  | .union left right, placeless => by
      obtain ⟨one, two⟩ := Bool.or_eq_false_iff.1 placeless
      rw [evaluate, evaluate, evaluate_moved left one, evaluate_moved right two]
      rfl
  | .path base step, placeless => by
      rw [evaluate, evaluate, evaluate_moved base placeless]
      simp only [followStep_moved]
  | .filter base predicate, placeless => by
      rw [evaluate, evaluate, evaluate_moved base placeless]
      rfl
  | .call name arguments, placeless => by
      obtain ⟨title, others⟩ := Bool.or_eq_false_iff.1 placeless
      obtain ⟨one, two⟩ := Bool.or_eq_false_iff.1 title
      rw [evaluate, evaluate]
      cases known : Function.ofName? name with
      | none => rfl
      | some function =>
          have other := function_ne_of_name known ⟨beq_eq_false_iff_ne.1 one, beq_eq_false_iff_ne.1 two⟩
          simp only [evaluateAll_moved arguments others, apply_moved other]
  | .binary operator left right, placeless => by
      obtain ⟨one, two⟩ := Bool.or_eq_false_iff.1 placeless
      rw [evaluate, evaluate, evaluate_moved left one, evaluate_moved right two]
      rfl
  | .negate operand, placeless => by
      rw [evaluate, evaluate, evaluate_moved operand placeless]
      rfl
  | .step step, _ => by
      rw [evaluate, evaluate]
      exact followStep_moved _ step

theorem evaluateAll_moved : ∀ expressions : List Expression, someAsksForPlace expressions = false →
    evaluateAll (context.moved context.node position size) expressions =
      evaluateAll context expressions
  | [], _ => by rw [evaluateAll, evaluateAll]
  | expression :: rest, placeless => by
      obtain ⟨one, others⟩ := Bool.or_eq_false_iff.1 placeless
      rw [evaluateAll, evaluateAll, evaluate_moved expression one, evaluateAll_moved rest others]

end

/-- At every place of a node, an expression that does not ask for places has the same value. -/
theorem evaluate_moved_eq (placeless : expression.asksForPlace = false) :
    evaluate (context.moved id position size) expression =
      evaluate (context.moved id place count) expression :=
  @evaluate_moved (context.moved id place count) position size expression placeless

end Places

section Predicates

/-- What a predicate makes of a node at a place. -/
theorem isKept_of_judges (placeless : predicate.asksForPlace = false)
    (judges : context.Judges predicate ids) (member : id ∈ ids) (position size : Nat) :
    (do
      let value ← evaluate (context.moved id position size) predicate
      return isKept position value : Except Error Bool) = .ok (context.holdsAt predicate id) := by
  obtain ⟨place, count, value, evaluated, other⟩ := judges id member
  have here : evaluate (context.moved id position size) predicate = .ok value :=
    (evaluate_moved_eq placeless).trans evaluated
  have alone : evaluate (context.moved id 1 1) predicate = .ok value :=
    (evaluate_moved_eq placeless).trans evaluated
  rw [here, Context.holdsAt, alone]
  exact congrArg Except.ok (isKept_of_isNumber other)

/-- What some nodes are judged by judges fewer of them. -/
theorem Context.Judges.subset {kept : List NodeId} (judges : context.Judges predicate ids)
    (within : kept ⊆ ids) : context.Judges predicate kept :=
  fun id member => judges id (within member)

/-- Predicates that judge the nodes keep those of which all of them hold. -/
theorem filterAll_of_judges {predicates : List Expression}
    (placeless : ∀ predicate ∈ predicates, predicate.asksForPlace = false)
    (judges : ∀ predicate ∈ predicates, context.Judges predicate ids) :
    filterAll context predicates ids =
      .ok (ids.filter fun id => predicates.all fun predicate => context.holdsAt predicate id) := by
  induction predicates generalizing ids with
  | nil => simp [filterAll]
  | cons predicate rest inductionHypothesis =>
      have kept := keepFrom_eq_filter (fun id member position =>
        isKept_of_judges (placeless predicate List.mem_cons_self) (judges predicate List.mem_cons_self)
          member position ids.length) 1
      have others : ∀ other ∈ rest, context.Judges other (ids.filter (context.holdsAt predicate)) :=
        fun other member => (judges other (List.mem_cons_of_mem _ member)).subset
          List.filter_sublist.subset
      rw [filterAll, kept]
      change filterAll context rest _ = _
      rw [inductionHypothesis (fun other member => placeless other (List.mem_cons_of_mem _ member))
        others, List.filter_filter]
      simp [Bool.and_comm]

/-- A conjunction judges what both of its parts judge, and holds where both hold. -/
theorem Context.Judges.and (one : context.Judges first ids) (two : context.Judges second ids)
    (placelessFirst : first.asksForPlace = false) (placelessSecond : second.asksForPlace = false) :
    context.Judges (.binary .and first second) ids ∧ ∀ id ∈ ids,
      context.holdsAt (.binary .and first second) id =
        (context.holdsAt first id && context.holdsAt second id) := by
  have both : ∀ id ∈ ids, evaluate (context.moved id 1 1) (.binary .and first second) =
      .ok (.boolean (context.holdsAt first id && context.holdsAt second id)) := by
    intro id member
    obtain ⟨_, _, value, evaluated, -⟩ := one id member
    obtain ⟨_, _, other, computed, -⟩ := two id member
    have front : evaluate (context.moved id 1 1) first = .ok value :=
      (evaluate_moved_eq placelessFirst).trans evaluated
    have back : evaluate (context.moved id 1 1) second = .ok other :=
      (evaluate_moved_eq placelessSecond).trans computed
    rw [evaluate_and front back, Context.holdsAt, Context.holdsAt, front, back]
  constructor
  · intro id member
    exact ⟨1, 1, _, both id member, rfl⟩
  · intro id member
    rw [Context.holdsAt, both id member]
    rfl

/-- A step with predicates that judge its candidates finds the candidates of which all of them hold. -/
theorem followStep_of_judges {axis : Axis} {test : NodeTest} {predicates : List Expression}
    {starts : List NodeId} (along : axis ≠ .attribute)
    (placeless : ∀ predicate ∈ predicates, predicate.asksForPlace = false)
    (judges : ∀ start ∈ starts, ∀ predicate ∈ predicates,
      context.Judges predicate (candidates context.document axis test start)) :
    followStep context starts ⟨axis, test, predicates⟩ =
      .ok (.nodes (Document.sortBy context.order (starts.flatMap fun start =>
        (candidates context.document axis test start).filter fun id =>
          predicates.all fun predicate => context.holdsAt predicate id))) := by
  have gathered : gather (fun start =>
      filterAll context predicates (candidates context.document axis test start)) starts =
      .ok (starts.flatMap fun start => (candidates context.document axis test start).filter fun id =>
        predicates.all fun predicate => context.holdsAt predicate id) := by
    induction starts with
    | nil => rfl
    | cons start starts inductionHypothesis =>
        have found := filterAll_of_judges placeless (judges start List.mem_cons_self)
        have others := inductionHypothesis fun other member =>
          judges other (List.mem_cons_of_mem _ member)
        rw [gather, found, others]
        rfl
  rw [followStep, if_neg along, gathered]
  rfl

end Predicates

/-- Two predicates that do not ask for places, and have a value at every candidate which is no number,
may stand in either order or be joined by a conjunction: the step finds the same nodes. -/
theorem evaluate_conjunction {axis : Axis} {test : NodeTest} (along : axis ≠ .attribute)
    (placelessFirst : first.asksForPlace = false) (placelessSecond : second.asksForPlace = false)
    (judgesFirst : context.Judges first (candidates context.document axis test context.node))
    (judgesSecond : context.Judges second (candidates context.document axis test context.node)) :
    ∃ ids, evaluate context (.step ⟨axis, test, [first, second]⟩) = .ok (.nodes ids) ∧
      evaluate context (.step ⟨axis, test, [second, first]⟩) = .ok (.nodes ids) ∧
      evaluate context (.step ⟨axis, test, [.binary .and first second]⟩) = .ok (.nodes ids) := by
  obtain ⟨judgesBoth, holdsBoth⟩ := judgesFirst.and judgesSecond placelessFirst placelessSecond
  have placelessBoth : (Expression.binary .and first second).asksForPlace = false := by
    rw [Expression.asksForPlace, placelessFirst, placelessSecond]
    rfl
  let found := (candidates context.document axis test context.node).filter fun id =>
    context.holdsAt first id && context.holdsAt second id
  have finds : ∀ {predicates : List Expression},
      (∀ predicate ∈ predicates, predicate.asksForPlace = false) →
      (∀ predicate ∈ predicates,
        context.Judges predicate (candidates context.document axis test context.node)) →
      (∀ id ∈ candidates context.document axis test context.node,
        (predicates.all fun predicate => context.holdsAt predicate id) =
          (context.holdsAt first id && context.holdsAt second id)) →
      evaluate context (.step ⟨axis, test, predicates⟩) =
        .ok (.nodes (Document.sortBy context.order found)) := by
    intro predicates placeless judges same
    have followed := @followStep_of_judges context axis test predicates [context.node] along placeless
      (by simpa using judges)
    rw [evaluate, followed, List.flatMap_singleton, List.filter_congr same]
  refine ⟨_, finds ?_ ?_ ?_, finds ?_ ?_ ?_, finds ?_ ?_ ?_⟩
  · simp [placelessFirst, placelessSecond]
  · simp [judgesFirst, judgesSecond]
  · simp
  · simp [placelessFirst, placelessSecond]
  · simp [judgesFirst, judgesSecond]
  · simp [Bool.and_comm]
  · simpa using placelessBoth
  · simpa using judgesBoth
  · simpa using holdsBoth

/-- A predicate with a place inside it and a test for an attribute keep the only child that passes both. -/
theorem evaluate_conjunction_of_nested : ∃ document first second, Document.Reachable document ∧
    first = .step ⟨.child, .any, [.binary .equal (.call "position" []) (.number (.ofNat 2))]⟩ ∧
    second = .step ⟨.attribute, .name "class", []⟩ ∧
    Expression.asksForPlace first = false ∧ Expression.asksForPlace second = false ∧
    (Context.start document 1).Judges first (candidates document .child .any 1) ∧
    (Context.start document 1).Judges second (candidates document .child .any 1) ∧
    candidates document .child .any 1 = [2, 3, 4] ∧
    evaluate (.start document 1) (.step ⟨.child, .any, [first, second]⟩) = .ok (.nodes [3]) ∧
    evaluate (.start document 1) (.step ⟨.child, .any, [second, first]⟩) = .ok (.nodes [3]) ∧
    evaluate (.start document 1) (.step ⟨.child, .any, [.binary .and first second]⟩) =
      .ok (.nodes [3]) := by
  let first : Expression :=
    .step ⟨.child, .any, [.binary .equal (.call "position" []) (.number (.ofNat 2))]⟩
  let second : Expression := .step ⟨.attribute, .name "class", []⟩
  have ran : (Document.empty.run? [.createElement "ul" [], .createElement "li" [],
      .createElement "li" [("class", "a")], .createElement "li" [("class", "b")],
      .createElement "b" [], .createElement "i" [], .createElement "b" [], .createElement "i" [],
      .append 0 1, .append 1 2, .append 1 3, .append 1 4, .append 2 5, .append 2 6, .append 3 7,
      .append 3 8]).any (fun document =>
        candidates document .child .any 1 = [2, 3, 4] ∧
        evaluate ((Context.start document 1).moved 2 1 1) first = .ok (.nodes [6]) ∧
        evaluate ((Context.start document 1).moved 3 1 1) first = .ok (.nodes [8]) ∧
        evaluate ((Context.start document 1).moved 4 1 1) first = .ok (.nodes []) ∧
        evaluate ((Context.start document 1).moved 2 1 1) second = .ok (.texts []) ∧
        evaluate ((Context.start document 1).moved 3 1 1) second = .ok (.texts ["a"]) ∧
        evaluate ((Context.start document 1).moved 4 1 1) second = .ok (.texts ["b"]) ∧
        evaluate (.start document 1) (.step ⟨.child, .any, [first, second]⟩) =
          .ok (.nodes [3])) = true := by
    decide +kernel
  obtain ⟨document, reachable, row, second₂, second₃, second₄, class₂, class₃, class₄, evaluated⟩ :=
    Document.exists_reachable ran
  have judgesFirst : (Context.start document 1).Judges first (candidates document .child .any 1) := by
    rw [row]
    intro id member
    simp only [List.mem_cons, List.not_mem_nil, or_false] at member
    rcases member with rfl | rfl | rfl
    · exact ⟨1, 1, _, second₂, rfl⟩
    · exact ⟨1, 1, _, second₃, rfl⟩
    · exact ⟨1, 1, _, second₄, rfl⟩
  have judgesSecond : (Context.start document 1).Judges second (candidates document .child .any 1) := by
    rw [row]
    intro id member
    simp only [List.mem_cons, List.not_mem_nil, or_false] at member
    rcases member with rfl | rfl | rfl
    · exact ⟨1, 1, _, class₂, rfl⟩
    · exact ⟨1, 1, _, class₃, rfl⟩
    · exact ⟨1, 1, _, class₄, rfl⟩
  obtain ⟨ids, front, back, joined⟩ :=
    @evaluate_conjunction (.start document 1) first second .child .any (by decide) rfl rfl judgesFirst
      judgesSecond
  obtain rfl : ids = [3] := by
    rw [evaluated] at front
    exact (Value.nodes.inj (Except.ok.inj front)).symm
  exact ⟨document, first, second, reachable, rfl, rfl, rfl, rfl, judgesFirst, judgesSecond, row, front,
    back, joined⟩

end ElementQuery.Path

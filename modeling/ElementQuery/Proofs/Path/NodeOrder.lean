/-
This file shows that the nodes to which an expression evaluates stand in document order and belong to
the tree in which the evaluation has begun, at the outside and wherever a part is evaluated.
-/

import ElementQuery.Path.Evaluation
import ElementQuery.Proofs.Document.Reachable
import ElementQuery.Proofs.Document.Trees
import ElementQuery.Proofs.Results

namespace ElementQuery.Path

variable {document : Document} {context inner : Context} {expression part : Expression}
  {node id other : NodeId} {nodes kept ids : List NodeId}

theorem expectNodes_eq_ok {operation : String} {value : Value} :
    expectNodes operation value = .ok nodes ↔ value = .nodes nodes := by
  cases value <;> simp [expectNodes, Value.nodes?]

section Expressions

/-- The parts of an expression that are evaluated in the context of the whole. -/
def Expression.parts : Expression → List Expression
  | .union left right => [left, right]
  | .path base _ => [base]
  | .filter base _ => [base]
  | .call _ arguments => arguments
  | .binary _ left right => [left, right]
  | .negate operand => [operand]
  | .root | .context | .parent | .number _ | .literal _ | .step _ => []

/-- A step that is followed from some nodes asks for the value of each of its predicates at each
candidate that the predicates before it have kept. -/
inductive Step.Asks (context : Context) (starts : List NodeId) :
    Step Expression → Context → Expression → Prop
  | predicate {axis : Axis} {test : NodeTest} {front back : List Expression}
      {predicate : Expression} {start id : NodeId} {nodes : List NodeId} {index : Nat}
      (begins : start ∈ starts)
      (kept : filterAll context front (candidates context.document axis test start) = .ok nodes)
      (place : nodes[index]? = some id) :
      Asks context starts ⟨axis, test, front ++ predicate :: back⟩
        (context.moved id (index + 1) nodes.length) predicate

/-- An expression asks for the values of its parts, and of its predicates at the nodes they filter. -/
inductive Expression.Asks (context : Context) : Expression → Context → Expression → Prop
  | part {expression part : Expression} (member : part ∈ expression.parts) :
      Asks context expression context part
  | filter {base predicate : Expression} {nodes : List NodeId} {index : Nat} {id : NodeId}
      (evaluated : evaluate context base = .ok (.nodes nodes))
      (place : nodes[index]? = some id) :
      Asks context (.filter base predicate) (context.moved id (index + 1) nodes.length) predicate
  | path {base predicate : Expression} {step : Step Expression} {starts : List NodeId}
      {inner : Context} (evaluated : evaluate context base = .ok (.nodes starts))
      (asks : step.Asks context starts inner predicate) :
      Asks context (.path base step) inner predicate
  | step {step : Step Expression} {inner : Context} {predicate : Expression}
      (asks : step.Asks context [context.node] inner predicate) :
      Asks context (.step step) inner predicate

/-- The evaluation of an expression visits the expression itself and whatever a visited one asks for. -/
inductive Visits (context : Context) (expression : Expression) : Context → Expression → Prop
  | itself : Visits context expression context expression
  | further {middle inner : Context} {whole part : Expression}
      (visited : Visits context expression middle whole) (asks : whole.Asks middle inner part) :
      Visits context expression inner part

end Expressions

/-- A context stands in the tree of a node and knows the order of that tree. -/
structure Context.Within (context : Context) (document : Document) (node : NodeId) : Prop where
  same : context.document = document
  order : context.order = document.treeOrder node
  inside : document.top context.node = document.top node

theorem Context.within_start : (Context.start document node).Within document node :=
  ⟨rfl, rfl, rfl⟩

theorem Context.Within.moved (within : context.Within document node)
    (inside : document.top id = document.top node) {position size : Nat} :
    (context.moved id position size).Within document node :=
  ⟨within.same, within.order, inside⟩

/-- Every axis stays in the tree. -/
theorem top_of_mem_navigate (linked : document.Linked) {axis : Axis}
    (member : other ∈ axis.navigate document id) : document.top other = document.top id := by
  have below : ∀ {node}, other ∈ document.descendants node →
      document.top other = document.top node := fun member =>
    linked.top_of_mem_ancestors (linked.mem_descendants.1 member)
  have within : ∀ {node}, other ∈ subtree document node →
      document.top other = document.top node := by
    intro node member
    rcases List.mem_cons.1 member with rfl | further
    · rfl
    · exact below further
  have above : ∀ {node}, node ∈ lineage document id → document.top node = document.top id := by
    intro node member
    rcases List.mem_cons.1 member with rfl | further
    · rfl
    · exact (linked.top_of_mem_ancestors further).symm
  cases axis with
  | child => exact linked.top_of_parent? (linked.childIff.1 member)
  | descendant => exact below member
  | descendantOrSelf => exact within member
  | parent => exact (linked.top_of_parent? (Option.mem_toList.1 member)).symm
  | ancestor => exact above (List.mem_cons_of_mem _ member)
  | ancestorOrSelf => exact above member
  | followingSibling => exact linked.top_of_mem_siblings (.inl member)
  | precedingSibling => exact linked.top_of_mem_siblings (.inr member)
  | following =>
      simp only [Axis.navigate, following, flank, List.mem_mergeSort, List.mem_flatMap] at member
      obtain ⟨start, upwards, branch, beside, under⟩ := member
      rw [within under, linked.top_of_mem_siblings (.inl beside), above upwards]
  | preceding =>
      simp only [Axis.navigate, preceding, flank, List.mem_mergeSort, List.mem_flatMap] at member
      obtain ⟨start, upwards, branch, beside, under⟩ := member
      rw [within under, linked.top_of_mem_siblings (.inr beside), above upwards]
  | itself => rw [List.mem_singleton.1 member]
  | «attribute» => exact absurd member List.not_mem_nil

/-- What a predicate keeps stands as before. -/
theorem keepFrom_sublist {test : Nat → NodeId → Except Error Bool} {position : Nat}
    (result : keepFrom test position nodes = .ok kept) : kept.Sublist nodes := by
  induction nodes generalizing position kept with
  | nil =>
      obtain rfl := Except.ok.inj result
      exact .slnil
  | cons first rest inductionHypothesis =>
      rw [keepFrom] at result
      obtain ⟨keeps, -, later⟩ := bind_eq_ok.1 result
      obtain ⟨others, further, final⟩ := bind_eq_ok.1 later
      obtain rfl := pure_eq_ok.1 final
      have behind := inductionHypothesis further
      split
      · exact behind.cons_cons first
      · exact behind.cons first

/-- What several predicates keep stands as before. -/
theorem filterAll_sublist {predicates : List Expression}
    (result : filterAll context predicates nodes = .ok kept) : kept.Sublist nodes := by
  induction predicates generalizing nodes with
  | nil =>
      rw [filterAll] at result
      obtain rfl := Except.ok.inj result
      exact .refl _
  | cons predicate rest inductionHypothesis =>
      rw [filterAll] at result
      obtain ⟨middle, first, later⟩ := bind_eq_ok.1 result
      exact (inductionHypothesis later).trans (keepFrom_sublist first)

/-- What is gathered has been selected for one of the nodes. -/
theorem exists_of_mem_gather {select : NodeId → Except Error (List NodeId)}
    (result : gather select nodes = .ok ids) (member : id ∈ ids) :
    ∃ start ∈ nodes, ∃ selected, select start = .ok selected ∧ id ∈ selected := by
  induction nodes generalizing ids with
  | nil =>
      obtain rfl := Except.ok.inj result
      exact absurd member List.not_mem_nil
  | cons first rest inductionHypothesis =>
      rw [gather] at result
      obtain ⟨selected, found, later⟩ := bind_eq_ok.1 result
      obtain ⟨others, further, final⟩ := bind_eq_ok.1 later
      obtain rfl := pure_eq_ok.1 final
      rcases List.mem_append.1 member with here | there
      · exact ⟨first, List.mem_cons_self, selected, found, here⟩
      · obtain ⟨start, among, known⟩ := inductionHypothesis further there
        exact ⟨start, List.mem_cons_of_mem _ among, known⟩

/-- The candidates of a step that some predicates keep lie in the tree. -/
theorem top_of_mem_filterAll (linked : document.Linked) (within : context.Within document node)
    {axis : Axis} {test : NodeTest} {predicates : List Expression}
    (begins : document.top other = document.top node)
    (result : filterAll context predicates (candidates context.document axis test other) = .ok kept)
    (member : id ∈ kept) : document.top id = document.top node := by
  rw [within.same] at result
  have candidate := (filterAll_sublist result).subset member
  rw [top_of_mem_navigate linked (List.mem_filter.1 candidate).1, begins]

/-- A step leads from nodes of a tree to nodes in the order of that tree. -/
theorem followStep_sublist (linked : document.Linked) (within : context.Within document node)
    {step : Step Expression} (inside : ∀ start ∈ nodes, document.top start = document.top node)
    (result : followStep context nodes step = .ok (.nodes ids)) :
    ids.Sublist (document.treeOrder node) := by
  obtain ⟨axis, test, predicates⟩ := step
  rw [followStep] at result
  split at result
  · split at result <;> cases result
  · obtain ⟨found, gathered, final⟩ := bind_eq_ok.1 result
    obtain ⟨rfl⟩ := pure_eq_ok.1 final
    rw [within.order]
    apply Document.sortBy_sublist (linked.nodup_treeOrder node)
    intro id member
    obtain ⟨start, begins, selected, filtered, among⟩ := exists_of_mem_gather gathered member
    exact linked.mem_treeOrder.2
      (top_of_mem_filterAll linked within (inside start begins) filtered among)

/-- No function yields nodes. -/
theorem apply_ne_nodes {function : Function} {arguments : List Value} :
    function.apply context arguments ≠ .ok (.nodes ids) := by
  intro result
  unfold Function.apply at result
  cases function <;> dsimp only at result <;> first | cases result | (split at result <;> cases result)

/-- No operator yields nodes. -/
theorem applyOperator_ne_nodes {operator : Operator} {left right : Value} :
    applyOperator document operator left right ≠ .nodes ids := by
  intro result
  unfold applyOperator at result
  split at result <;> cases result

/-- An expression finds nodes when it is a place, a step, or put together from parts that find some. -/
inductive Expression.Finds (context : Context) : Expression → List NodeId → Prop
  | root : Finds context .root [context.document.top context.node]
  | context : Finds context .context [context.node]
  | parent : Finds context .parent (context.document.parent? context.node).toList
  | union {left right : Expression} {first second : List NodeId} (one : Finds context left first)
      (two : Finds context right second) :
      Finds context (.union left right) (Document.sortBy context.order (first ++ second))
  | path {base : Expression} {step : Step Expression} {starts ids : List NodeId}
      (begins : Finds context base starts)
      (followed : followStep context starts step = .ok (.nodes ids)) :
      Finds context (.path base step) ids
  | filter {base predicate : Expression} {nodes kept : List NodeId}
      (found : Finds context base nodes) (keeps : kept.Sublist nodes) :
      Finds context (.filter base predicate) kept
  | step {step : Step Expression} {ids : List NodeId}
      (followed : followStep context [context.node] step = .ok (.nodes ids)) :
      Finds context (.step step) ids

/-- No other expression evaluates to nodes. -/
theorem finds_of_evaluate (expression : Expression) {ids : List NodeId}
    (result : evaluate context expression = .ok (.nodes ids)) : expression.Finds context ids := by
  match expression with
  | .root =>
      rw [evaluate] at result
      obtain ⟨⟩ := result
      exact .root
  | .context =>
      rw [evaluate] at result
      obtain ⟨⟩ := result
      exact .context
  | .parent =>
      rw [evaluate] at result
      obtain ⟨⟩ := result
      exact .parent
  | .union left right =>
      rw [evaluate] at result
      simp only [bind_eq_ok, expectNodes_eq_ok, pure_eq_ok] at result
      obtain ⟨_, one, first, rfl, _, two, second, rfl, ⟨⟩⟩ := result
      exact .union (finds_of_evaluate left one) (finds_of_evaluate right two)
  | .path base step =>
      rw [evaluate] at result
      simp only [bind_eq_ok, expectNodes_eq_ok] at result
      obtain ⟨_, evaluated, starts, rfl, followed⟩ := result
      exact .path (finds_of_evaluate base evaluated) followed
  | .filter base predicate =>
      rw [evaluate] at result
      simp only [bind_eq_ok, expectNodes_eq_ok, pure_eq_ok] at result
      obtain ⟨_, evaluated, nodes, rfl, kept, keeps, ⟨⟩⟩ := result
      exact .filter (finds_of_evaluate base evaluated) (keepFrom_sublist keeps)
  | .step step =>
      rw [evaluate] at result
      exact .step result
  | .call name arguments =>
      rw [evaluate] at result
      split at result
      · cases result
      · split at result
        · obtain ⟨values, -, applied⟩ := bind_eq_ok.1 result
          exact absurd applied apply_ne_nodes
        · cases result
  | .binary operator left right =>
      rw [evaluate] at result
      obtain ⟨first, -, later⟩ := bind_eq_ok.1 result
      split at later
      · cases later
      · split at later
        · cases later
        · obtain ⟨second, -, final⟩ := bind_eq_ok.1 later
          split at final
          · cases final
          · exact absurd (pure_eq_ok.1 final) applyOperator_ne_nodes
  | .negate operand =>
      rw [evaluate] at result
      obtain ⟨value, -, final⟩ := bind_eq_ok.1 result
      cases final
  | .number value =>
      rw [evaluate] at result
      cases result
  | .literal text =>
      rw [evaluate] at result
      cases result

/-- The nodes to which an expression evaluates stand in the order of the tree. -/
theorem evaluate_sublist (linked : document.Linked) (within : context.Within document node)
    (expression : Expression) {ids : List NodeId}
    (result : evaluate context expression = .ok (.nodes ids)) :
    ids.Sublist (document.treeOrder node) := by
  have single : ∀ {id}, document.top id = document.top node →
      [id].Sublist (document.treeOrder node) := fun same =>
    List.singleton_sublist.2 (linked.mem_treeOrder.2 same)
  have finds := finds_of_evaluate expression result
  clear result
  induction finds with
  | root =>
      rw [within.same]
      apply single
      rw [Document.top_of_parent?_eq_none (linked.parent?_top _), within.inside]
  | context => exact single within.inside
  | parent =>
      rw [within.same]
      cases owned : document.parent? context.node with
      | none => exact List.nil_sublist _
      | some parent => exact single ((linked.top_of_parent? owned).symm.trans within.inside)
  | union one two first second =>
      rw [within.order]
      apply Document.sortBy_sublist (linked.nodup_treeOrder node)
      intro id member
      rcases List.mem_append.1 member with front | back
      · exact first.subset front
      · exact second.subset back
  | path begins followed inductionHypothesis =>
      refine followStep_sublist linked within (fun start member => ?_) followed
      exact linked.mem_treeOrder.1 (inductionHypothesis.subset member)
  | filter found keeps inductionHypothesis => exact keeps.trans inductionHypothesis
  | step followed =>
      refine followStep_sublist linked within (fun start begins => ?_) followed
      rw [List.mem_singleton.1 begins, within.inside]

/-- What a step asks for is asked in the tree. -/
theorem Step.Asks.within (linked : document.Linked) (within : context.Within document node)
    {step : Step Expression} (inside : ∀ start ∈ nodes, document.top start = document.top node)
    (asks : step.Asks context nodes inner part) : inner.Within document node := by
  obtain ⟨begins, kept, place⟩ := asks
  exact within.moved (top_of_mem_filterAll linked within (inside _ begins) kept
    (List.mem_of_getElem? place))

/-- What an expression asks for is asked in the tree. -/
theorem Expression.Asks.within (linked : document.Linked) (within : context.Within document node)
    (asks : expression.Asks context inner part) : inner.Within document node := by
  cases asks with
  | part member => exact within
  | filter evaluated place =>
      have member := List.mem_of_getElem? place
      exact within.moved (linked.mem_treeOrder.1
        ((evaluate_sublist linked within _ evaluated).subset member))
  | path evaluated asks =>
      refine asks.within linked within fun start begins => ?_
      exact linked.mem_treeOrder.1 ((evaluate_sublist linked within _ evaluated).subset begins)
  | step asks =>
      refine asks.within linked within fun start begins => ?_
      rw [List.mem_singleton.1 begins, within.inside]

/-- Whatever the evaluation visits is visited in the tree. -/
theorem Visits.within (linked : document.Linked) (within : context.Within document node)
    (visited : Visits context expression inner part) : inner.Within document node := by
  induction visited with
  | itself => exact within
  | further _ asks inductionHypothesis => exact asks.within linked inductionHypothesis

/-- Whenever an expression or a part of it that is visited from a node evaluates to nodes, these belong
to the tree of the node and have increasing places in its order. -/
theorem evaluate_in_treeOrder (reachable : Document.Reachable document)
    (visited : Visits (.start document node) expression inner part)
    (evaluated : evaluate inner part = .ok (.nodes ids)) :
    (∀ id ∈ ids, document.top id = document.top node ∧ id ∈ document.treeOrder node) ∧
      ids.Pairwise fun first second =>
        (document.treeOrder node).idxOf first < (document.treeOrder node).idxOf second := by
  have linked := reachable.linked
  have within := visited.within linked Context.within_start
  have ordered := evaluate_sublist linked within part evaluated
  refine ⟨fun id member => ?_, ?_⟩
  · have inside := ordered.subset member
    exact ⟨linked.mem_treeOrder.1 inside, inside⟩
  · exact Document.pairwise_idxOf_of_sublist (linked.nodup_treeOrder node) ordered

/-- A predicate that is visited at a node whose children have changed places finds the younger child
first, as it stands in the tree. -/
theorem evaluate_in_treeOrder_of_predicate : ∃ document inner,
    Document.Reachable document ∧
    Visits (.start document 0) (.step ⟨.descendant, .any, [.step ⟨.child, .any, []⟩]⟩) inner
      (.step ⟨.child, .any, []⟩) ∧
    evaluate inner (.step ⟨.child, .any, []⟩) = .ok (.nodes [3, 2]) ∧
    (document.treeOrder 0).idxOf 3 < (document.treeOrder 0).idxOf 2 := by
  have ran : (Document.empty.run? [.createElement "a" [], .createElement "b" [],
      .createElement "c" [], .append 0 1, .append 1 3, .append 1 2]).any (fun document =>
        candidates document .descendant .any 0 = [1, 3, 2] ∧
        evaluate ((Context.start document 0).moved 1 1 3) (.step ⟨.child, .any, []⟩) =
          .ok (.nodes [3, 2])) = true := by
    decide
  obtain ⟨document, reachable, found, evaluated⟩ := Document.exists_reachable ran
  have kept : filterAll (.start document 0) [] (candidates document .descendant .any 0) =
      .ok [1, 3, 2] := by
    rw [filterAll, found]
  have visited : Visits (.start document 0) (.step ⟨.descendant, .any, [.step ⟨.child, .any, []⟩]⟩)
      ((Context.start document 0).moved 1 1 3) (.step ⟨.child, .any, []⟩) :=
    .further .itself (.step (@Step.Asks.predicate _ _ _ _ [] [] _ _ _ _ 0 List.mem_cons_self kept rfl))
  have ordered := (evaluate_in_treeOrder reachable visited evaluated).2
  exact ⟨document, _, reachable, visited, evaluated, by simpa using ordered⟩

end ElementQuery.Path

/-
This file shows that two slashes lead to the same nodes as a step along the descendants.
-/

import ElementQuery.Proofs.Document.Reachable
import ElementQuery.Proofs.Document.Trees
import ElementQuery.Proofs.Path.Meaning

namespace ElementQuery.Path

variable {document : Document} {context : Context} {nodes : List NodeId} {id top : NodeId}

/-- What hangs below a node is a child of the node or of something below it. -/
theorem mem_descendants_iff_exists_parent (linked : document.Linked) :
    id ∈ document.descendants top ↔ ∃ parent ∈ subtree document top, id ∈ document.children parent := by
  rw [linked.mem_descendants, linked.mem_ancestors]
  constructor
  · rintro ⟨parent, owned, place⟩
    refine ⟨parent, List.mem_cons.2 ?_, linked.childIff.2 owned⟩
    exact place.imp Eq.symm linked.mem_descendants.2
  · rintro ⟨parent, inside, member⟩
    refine ⟨parent, linked.childIff.1 member, ?_⟩
    exact (List.mem_cons.1 inside).imp Eq.symm linked.mem_descendants.1

/-- Every node that has a child passes the test for all nodes. -/
theorem accepts_node_of_mem_children {parent child : NodeId}
    (member : child ∈ document.children parent) : NodeTest.node.accepts document parent = true := by
  have known := Document.node?_isSome_iff.2 (Document.lt_size_of_mem_children member)
  obtain ⟨node, found⟩ := Option.isSome_iff_exists.1 known
  simp [NodeTest.accepts, Document.content?, found]

/-- The descendants that pass a test are the children that pass it of what the step for everything
below finds. -/
theorem mem_candidates_descendant (linked : document.Linked) {test : NodeTest} :
    id ∈ candidates document .descendant test top ↔
      ∃ parent ∈ candidates document .descendantOrSelf .node top,
        id ∈ candidates document .child test parent := by
  simp only [candidates, Axis.navigate, List.mem_filter, mem_descendants_iff_exists_parent linked]
  constructor
  · rintro ⟨⟨parent, inside, member⟩, accepted⟩
    exact ⟨parent, ⟨inside, accepts_node_of_mem_children member⟩, member, accepted⟩
  · rintro ⟨parent, ⟨inside, -⟩, member, accepted⟩
    exact ⟨⟨parent, inside, member⟩, accepted⟩

/-- A step without predicates finds its candidates. -/
theorem followStep_plain {axis : Axis} {test : NodeTest} (along : axis ≠ .attribute) :
    followStep context nodes ⟨axis, test, []⟩ = .ok (.nodes (Document.sortBy context.order
      (nodes.flatMap (candidates context.document axis test)))) := by
  have found : ∀ id, filterAll context [] (candidates context.document axis test id) =
      .ok (candidates context.document axis test id) := fun id => by rw [filterAll]
  rw [followStep, if_neg along, gather_eq_flatMap found]
  rfl

/-- The children of everything below some nodes are their descendants: starts that hang below one
another make no difference, for what is found is sorted and named once. -/
theorem followStep_child_of_everything (linked : document.Linked) (views : context.Views document)
    {test : NodeTest} :
    (do
      let everything ← followStep context nodes ⟨.descendantOrSelf, .node, []⟩
      let middle ← expectNodes "/" everything
      followStep context middle ⟨.child, test, []⟩ : Except Error Value) =
      followStep context nodes ⟨.descendant, test, []⟩ := by
  have everything := @followStep_plain context nodes .descendantOrSelf .node (by decide)
  have direct := @followStep_plain context nodes .descendant test (by decide)
  rw [everything, direct]
  change followStep context (Document.sortBy _ _) ⟨.child, test, []⟩ = _
  rw [followStep_plain (by decide), views.same]
  congr 2
  apply Document.sortBy_congr views.distinct
  intro id
  simp only [List.mem_flatMap, Document.mem_sortBy]
  constructor
  · rintro ⟨parent, ⟨start, begins, inside⟩, member⟩
    exact ⟨start, begins, (mem_candidates_descendant linked).2 ⟨parent, inside, member⟩⟩
  · rintro ⟨start, begins, below⟩
    obtain ⟨parent, inside, member⟩ := (mem_candidates_descendant linked).1 below
    exact ⟨parent, ⟨start, begins, inside⟩, member⟩

section Reading

variable {nested : List Lexeme → Except Fault (Expression × List Lexeme)} {base : Expression}
  {sign : Lexeme} {text rest : List Lexeme}

/-- Behind its last step a path ends. -/
theorem continuePath_step {apply : Expression → Step Expression → Expression} {step : Step Expression}
    (known : pathOperator? sign.token = some apply) (read : readStep nested text = .ok (step, rest))
    (ends : strength (current rest) < 8) :
    continuePath nested base (sign :: text) = .ok (apply base step, rest) := by
  have none : pathOperator? (current rest) = none := by
    generalize current rest = token at ends
    cases token <;> first | rfl | exact absurd ends (by decide)
  rw [continuePath, List.length_cons, chainFrom, current, known]
  change (readStep nested text >>= _) = _
  rw [read]
  exact chainFrom_of_none none

example : parse "(a | b)//text()" = .ok (.path (.path (.union (.step ⟨.child, .name "a", []⟩)
    (.step ⟨.child, .name "b", []⟩)) ⟨.descendantOrSelf, .node, []⟩) ⟨.child, .text, []⟩) := by
  cbv

end Reading

/-- Two slashes before a test go on from a path by the steps to everything below and to the children;
where the links of the document agree, this leads to the same nodes as the step to the descendants, or
to the same fault. -/
theorem evaluate_shorthand (reachable : document.Reachable) (views : context.Views document)
    (base : Expression) (test : NodeTest) :
    (∀ (nested : List Lexeme → Except Fault (Expression × List Lexeme))
      (slashes slash title colons : Lexeme) (text rest : List Lexeme),
      slashes.token = .doubleSlash → slash.token = .slash → title.token = .axis "descendant" →
      colons.token = .doubleColon → readTest text = .ok (test, rest) → strength (current rest) < 8 →
      continuePath nested base (slashes :: text) =
          .ok (.path (.path base ⟨.descendantOrSelf, .node, []⟩) ⟨.child, test, []⟩, rest) ∧
        continuePath nested base (slash :: title :: colons :: text) =
          .ok (.path base ⟨.descendant, test, []⟩, rest)) ∧
    evaluate context (.path (.path base ⟨.descendantOrSelf, .node, []⟩) ⟨.child, test, []⟩) =
      evaluate context (.path base ⟨.descendant, test, []⟩) := by
  constructor
  · intro nested slashes slash title colons text rest double single shape form tested ends
    constructor
    · exact continuePath_step (by rw [double]; rfl) (readStep_child tested (Nat.le_of_lt ends)) ends
    · exact continuePath_step (by rw [single]; rfl)
        (@readStep_axis nested .descendant _ _ _ _ _ shape form tested (Nat.le_of_lt ends)) ends
  · have linked := reachable.linked
    rw [evaluate, evaluate, evaluate]
    cases evaluate context base with
    | error fault => rfl
    | ok value =>
        cases value with
        | nodes starts => exact followStep_child_of_everything linked views
        | boolean _ | number _ | text _ | texts _ => rfl

/-- From two lists of which one hangs in the other, either way finds every item once, in the order of
the document. -/
theorem evaluate_shorthand_of_nested : ∃ document, Document.Reachable document ∧
    (Context.start document 0).Views document ∧
    continuePath (readExpression 1) (.step ⟨.descendant, .name "ul", []⟩)
        [⟨.doubleSlash, ['*']⟩, ⟨.star, []⟩] =
      .ok (.path (.path (.step ⟨.descendant, .name "ul", []⟩) ⟨.descendantOrSelf, .node, []⟩)
        ⟨.child, .any, []⟩, []) ∧
    evaluate (.start document 0) (.path (.path (.step ⟨.descendant, .name "ul", []⟩)
        ⟨.descendantOrSelf, .node, []⟩) ⟨.child, .any, []⟩) = .ok (.nodes [4, 3, 2]) := by
  have ran : (Document.empty.run? [.createElement "ul" [], .createElement "li" [],
      .createElement "ul" [], .createElement "li" [], .createText "a", .append 0 1, .append 1 4,
      .append 4 3, .append 3 2, .append 2 5]).any (fun document =>
        evaluate (.start document 0) (.path (.step ⟨.descendant, .name "ul", []⟩)
          ⟨.descendant, .any, []⟩) = .ok (.nodes [4, 3, 2])) = true := by
    decide +kernel
  obtain ⟨document, reachable, found⟩ := Document.exists_reachable ran
  have views : (Context.start document 0).Views document :=
    ⟨rfl, reachable.linked.nodup_treeOrder 0⟩
  obtain ⟨reads, same⟩ :=
    evaluate_shorthand reachable views (.step ⟨.descendant, .name "ul", []⟩) .any
  have read := (reads (readExpression 1) ⟨.doubleSlash, ['*']⟩ ⟨.slash, []⟩ ⟨.axis "descendant", []⟩
    ⟨.doubleColon, []⟩ [⟨.star, []⟩] [] rfl rfl rfl rfl rfl (by decide)).1
  exact ⟨document, reachable, views, read, same.trans found⟩

end ElementQuery.Path

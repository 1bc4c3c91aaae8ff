/-
This file shows that a union names the nodes of both operands once, whichever comes first, and that a step
from a union finds what the same step finds from the operands.
-/

import ElementQuery.Proofs.Document.Reachable
import ElementQuery.Proofs.Path.Meaning
import ElementQuery.Proofs.Path.NodeOrder

namespace ElementQuery

namespace Document

variable {order nodes kept : List NodeId}

/-- Sorting puts a node before another when it has an earlier place in the order, where all that have
no place come last, or when neither has one and it is older. -/
def Sorts (order : List NodeId) (first second : NodeId) : Prop :=
  order.idxOf first < order.idxOf second ∨
    order.idxOf first = order.idxOf second ∧ first < second

instance (order : List NodeId) : Std.Asymm (Sorts order) where
  asymm first second before after := by
    rcases before with earlier | ⟨same, older⟩
    · rcases after with later | ⟨equal, -⟩
      · exact Nat.lt_asymm earlier later
      · exact Nat.ne_of_gt earlier equal
    · rcases after with later | ⟨-, younger⟩
      · exact Nat.ne_of_gt later same
      · exact Nat.lt_asymm older younger

/-- The places of sorted nodes increase, and the age of those without a place. -/
theorem pairwise_sortBy (distinct : order.Nodup) (nodes : List NodeId) :
    (sortBy order nodes).Pairwise (Sorts order) := by
  rw [sortBy_eq_arrange distinct, arrange, List.pairwise_append]
  refine ⟨?_, ?_, ?_⟩
  · exact (pairwise_idxOf_of_sublist distinct List.filter_sublist).imp .inl
  · have missing : ∀ id ∈ mergeEqual ((nodes.filter fun id => !order.contains id).mergeSort),
        order.idxOf id = order.length := by
      intro id member
      rw [mem_mergeEqual, List.mem_mergeSort, List.mem_filter] at member
      exact List.idxOf_eq_length (by simpa using member.2)
    have sorted : ((nodes.filter fun id => !order.contains id).mergeSort).Pairwise (· ≤ ·) := by
      simpa using List.pairwise_mergeSort' (· ≤ ·) (nodes.filter fun id => !order.contains id)
    exact (pairwise_mergeEqual sorted).imp_of_mem fun front back less =>
      .inr ⟨(missing _ front).trans (missing _ back).symm, less⟩
  · intro first front second back
    have known : first ∈ order := (List.mem_filter.1 front).1
    rw [mem_mergeEqual, List.mem_mergeSort, List.mem_filter] at back
    have missing : order.idxOf second = order.length :=
      List.idxOf_eq_length (by simpa using back.2)
    exact .inl (missing ▸ List.idxOf_lt_length_of_mem known)

/-- Sorting leaves sorted nodes as they are. -/
theorem sortBy_of_pairwise (distinct : order.Nodup) (sorted : nodes.Pairwise (Sorts order)) :
    sortBy order nodes = nodes :=
  (pairwise_sortBy distinct nodes).eq_of_mem_iff sorted fun _ => mem_sortBy

end Document

namespace Path

variable {context : Context} {first second third : Expression} {step : Step Expression}
  {nodes front back ids others more : List NodeId}

section Nodes

/-- A step sorts the nodes that it finds. -/
theorem followStep_pairwise (distinct : context.order.Nodup)
    (result : followStep context nodes step = .ok (.nodes ids)) :
    ids.Pairwise (Document.Sorts context.order) := by
  obtain ⟨axis, test, predicates⟩ := step
  rw [followStep] at result
  split at result
  · split at result <;> cases result
  · obtain ⟨found, -, final⟩ := bind_eq_ok.1 result
    obtain ⟨rfl⟩ := pure_eq_ok.1 final
    exact Document.pairwise_sortBy distinct found

/-- The nodes to which an expression evaluates are sorted, whatever tree the order belongs to. -/
theorem evaluate_pairwise (distinct : context.order.Nodup) (expression : Expression)
    (result : evaluate context expression = .ok (.nodes ids)) :
    ids.Pairwise (Document.Sorts context.order) := by
  have finds := finds_of_evaluate expression result
  clear result
  induction finds with
  | root | context => exact List.pairwise_singleton _ _
  | parent =>
      cases context.document.parent? context.node with
      | none => exact .nil
      | some parent => exact List.pairwise_singleton _ _
  | union => exact Document.pairwise_sortBy distinct _
  | path _ followed => exact followStep_pairwise distinct followed
  | filter _ keeps inductionHypothesis => exact inductionHypothesis.sublist keeps
  | step followed => exact followStep_pairwise distinct followed

/-- A union has a value only when both of its operands have one. -/
theorem evaluate_union_eq_error (fails : (∃ fault, evaluate context first = .error fault) ∨
    ∃ fault, evaluate context second = .error fault) :
    ∃ fault, evaluate context (.union first second) = .error fault := by
  cases result : evaluate context (.union first second) with
  | error fault => exact ⟨fault, rfl⟩
  | ok value =>
      rw [evaluate] at result
      simp only [bind_eq_ok] at result
      obtain ⟨_, one, _, -, _, two, -⟩ := result
      rcases fails with ⟨fault, wrong⟩ | ⟨fault, wrong⟩
      · rw [one] at wrong
        cases wrong
      · rw [two] at wrong
        cases wrong

/-- A union of two expressions that have nodes has the nodes of both. -/
theorem evaluate_union (one : evaluate context first = .ok (.nodes ids))
    (two : evaluate context second = .ok (.nodes others)) :
    evaluate context (.union first second) =
      .ok (.nodes (Document.sortBy context.order (ids ++ others))) := by
  rw [evaluate, one, two]
  rfl

theorem evaluate_path (begins : evaluate context first = .ok (.nodes nodes)) :
    evaluate context (.path first step) = followStep context nodes step := by
  rw [evaluate, begins]
  rfl

end Nodes

section Steps

/-- What is gathered from nodes is at fault with one of them, or each of them has a row and the nodes of
these rows are named. -/
theorem gather_outcome (select : NodeId → Except Error (List NodeId)) (nodes : List NodeId) :
    (∃ fault, gather select nodes = .error fault) ∧
        (∃ id ∈ nodes, ∃ fault, select id = .error fault) ∨
      ∃ found, gather select nodes = .ok found ∧ (∀ id ∈ nodes, ∃ row, select id = .ok row) ∧
        ∀ other, other ∈ found ↔ ∃ id ∈ nodes, ∃ row, select id = .ok row ∧ other ∈ row := by
  induction nodes with
  | nil => exact .inr ⟨[], rfl, by simp, by simp⟩
  | cons id rest inductionHypothesis =>
      rw [gather]
      cases selected : select id with
      | error fault => exact .inl ⟨⟨fault, rfl⟩, id, List.mem_cons_self, fault, selected⟩
      | ok row =>
          rcases inductionHypothesis with
            ⟨⟨fault, fails⟩, other, member, wrong⟩ | ⟨found, gathered, each, names⟩
          · rw [fails]
            exact .inl ⟨⟨fault, rfl⟩, other, List.mem_cons_of_mem _ member, wrong⟩
          · rw [gathered]
            refine .inr ⟨row ++ found, rfl, ?_, ?_⟩
            · exact List.forall_mem_cons.2 ⟨⟨row, selected⟩, each⟩
            · simp [names, selected]

/-- Gathering does not depend on the row in which the nodes stand, nor on how often they come: it is at
fault when it is so with some of the nodes, and otherwise it names what it names with either part. -/
theorem gather_of_parts {select : NodeId → Except Error (List NodeId)}
    (parts : ∀ id, id ∈ nodes ↔ id ∈ front ∨ id ∈ back) :
    (∃ fault, gather select nodes = .error fault) ∧
        ((∃ fault, gather select front = .error fault) ∨ ∃ fault, gather select back = .error fault) ∨
      ∃ found ids others, gather select nodes = .ok found ∧ gather select front = .ok ids ∧
        gather select back = .ok others ∧ ∀ id, id ∈ found ↔ id ∈ ids ∨ id ∈ others := by
  have apart : ∀ {id}, (∃ row, select id = .ok row) →
      (∃ fault, select id = .error fault) → False := by
    rintro id ⟨row, found⟩ ⟨fault, wrong⟩
    rw [found] at wrong
    cases wrong
  rcases gather_outcome select nodes with ⟨fails, id, member, wrong⟩ | ⟨found, gathered, each, names⟩
  · refine .inl ⟨fails, ?_⟩
    rcases (parts id).1 member with inFront | inBack
    · rcases gather_outcome select front with ⟨known, -⟩ | ⟨_, -, every, -⟩
      · exact .inl known
      · exact (apart (every id inFront) wrong).elim
    · rcases gather_outcome select back with ⟨known, -⟩ | ⟨_, -, every, -⟩
      · exact .inr known
      · exact (apart (every id inBack) wrong).elim
  · rcases gather_outcome select front with ⟨-, id, member, wrong⟩ | ⟨ids, first, -, namesFirst⟩
    · exact (apart (each id ((parts id).2 (.inl member))) wrong).elim
    · rcases gather_outcome select back with ⟨-, id, member, wrong⟩ | ⟨others, second, -, namesSecond⟩
      · exact (apart (each id ((parts id).2 (.inr member))) wrong).elim
      · refine .inr ⟨found, ids, others, gathered, first, second, fun id => ?_⟩
        simp only [names, namesFirst, namesSecond, parts, or_and_right, exists_or]

/-- From the nodes of two rows together a step leads to what it leads to from the one row and from the other:
its predicates count the candidates of each node on their own. -/
theorem followStep_of_parts (distinct : context.order.Nodup) (along : step.axis ≠ .attribute)
    (parts : ∀ id, id ∈ nodes ↔ id ∈ front ∨ id ∈ back) :
    (∃ fault, followStep context nodes step = .error fault) ∧
        ((∃ fault, followStep context front step = .error fault) ∨
          ∃ fault, followStep context back step = .error fault) ∨
      ∃ ids others, followStep context front step = .ok (.nodes ids) ∧
        followStep context back step = .ok (.nodes others) ∧
        followStep context nodes step =
          .ok (.nodes (Document.sortBy context.order (ids ++ others))) := by
  obtain ⟨axis, test, predicates⟩ := step
  have along : axis ≠ .attribute := along
  simp only [followStep, if_neg along]
  rcases gather_of_parts parts with
    ⟨⟨fault, fails⟩, wrong⟩ | ⟨found, ids, others, gathered, first, second, names⟩
  · refine .inl ⟨⟨fault, by rw [fails]; rfl⟩, ?_⟩
    refine wrong.imp ?_ ?_
    all_goals
      rintro ⟨fault, fails⟩
      exact ⟨fault, by rw [fails]; rfl⟩
  · rw [gathered, first, second]
    refine .inr ⟨_, _, rfl, rfl, ?_⟩
    change Except.ok (Value.nodes _) = _
    congr 2
    apply Document.sortBy_congr distinct
    simp [names, Document.mem_sortBy]

end Steps

/-- In a context whose order names no node twice, as that of every tree of a reachable document, a union names
what one of its operands names. Its operands may be exchanged, grouped otherwise or merged when they are
equal, and a step from it is at fault or leads to the same nodes as the union of the steps from both. -/
theorem evaluate_union_laws {document : Document} (views : context.Views document)
    (one : evaluate context first = .ok (.nodes ids))
    (two : evaluate context second = .ok (.nodes others))
    (three : evaluate context third = .ok (.nodes more)) :
    (∃ both, evaluate context (.union first second) = .ok (.nodes both) ∧
      evaluate context (.union second first) = .ok (.nodes both) ∧
      ∀ id, id ∈ both ↔ id ∈ ids ∨ id ∈ others) ∧
    (∃ all, evaluate context (.union (.union first second) third) = .ok (.nodes all) ∧
      evaluate context (.union first (.union second third)) = .ok (.nodes all)) ∧
    evaluate context (.union first first) = evaluate context first ∧
    ∀ step : Step Expression, step.axis ≠ .attribute →
      (∃ fault, evaluate context (.path (.union first second) step) = .error fault) ∧
          (∃ fault, evaluate context (.union (.path first step) (.path second step)) = .error fault) ∨
        ∃ found, evaluate context (.path (.union first second) step) = .ok (.nodes found) ∧
          evaluate context (.union (.path first step) (.path second step)) = .ok (.nodes found) := by
  have distinct := views.distinct
  have both := evaluate_union one two
  refine ⟨⟨_, both, ?_, ?_⟩, ⟨_, evaluate_union both three, ?_⟩, ?_, ?_⟩
  · rw [evaluate_union two one]
    congr 2
    apply Document.sortBy_congr distinct
    simp [or_comm]
  · simp [Document.mem_sortBy]
  · rw [evaluate_union one (evaluate_union two three)]
    congr 2
    apply Document.sortBy_congr distinct
    simp [Document.mem_sortBy, or_assoc]
  · have sorted := Document.sortBy_of_pairwise distinct (evaluate_pairwise distinct first one)
    have merged : Document.sortBy context.order (ids ++ ids) = Document.sortBy context.order ids :=
      Document.sortBy_congr distinct (by simp)
    rw [evaluate_union one one, merged, sorted, one]
  · intro step along
    rw [evaluate_path both]
    have parts : ∀ id, id ∈ Document.sortBy context.order (ids ++ others) ↔
        id ∈ ids ∨ id ∈ others := by
      simp [Document.mem_sortBy]
    rcases followStep_of_parts distinct along parts with
      ⟨fails, wrong⟩ | ⟨front, back, left, right, whole⟩
    · refine .inl ⟨fails, evaluate_union_eq_error ?_⟩
      rwa [evaluate_path one, evaluate_path two]
    · refine .inr ⟨_, whole, evaluate_union ?_ ?_⟩
      · rw [evaluate_path one, left]
      · rw [evaluate_path two, right]

/-- The last child of each list and of each item of nested lists is found from either union, although a list
and an item have children in turn. With a predicate that counts a text, both are at fault. -/
theorem evaluate_union_laws_of_nested : ∃ document lists items, Document.Reachable document ∧
    (Context.start document 0).Views document ∧
    lists = .step ⟨.descendant, .name "ul", []⟩ ∧ items = .step ⟨.descendant, .name "li", []⟩ ∧
    evaluate (.start document 0) lists = .ok (.nodes [1, 3]) ∧
    evaluate (.start document 0) items = .ok (.nodes [2, 5, 4, 6]) ∧
    evaluate (.start document 0) (.union items lists) = .ok (.nodes [1, 2, 3, 5, 4, 6]) ∧
    evaluate (.start document 0) (.union (.path lists ⟨.child, .any, [.call "last" []]⟩)
      (.path items ⟨.child, .any, [.call "last" []]⟩)) = .ok (.nodes [3, 4, 6]) ∧
    ∃ fault, evaluate (.start document 0)
      (.union (.path lists ⟨.child, .any, [.call "count" [.literal ""]]⟩)
        (.path items ⟨.child, .any, [.call "count" [.literal ""]]⟩)) = .error fault := by
  let lists : Expression := .step ⟨.descendant, .name "ul", []⟩
  let items : Expression := .step ⟨.descendant, .name "li", []⟩
  have ran : (Document.empty.run? [.createElement "ul" [], .createElement "li" [],
      .createElement "ul" [], .createElement "li" [], .createElement "li" [], .createElement "li" [],
      .append 0 1, .append 1 2, .append 2 3, .append 3 5, .append 3 4, .append 1 6]).any
      (fun document =>
        evaluate (.start document 0) lists = .ok (.nodes [1, 3]) ∧
        evaluate (.start document 0) items = .ok (.nodes [2, 5, 4, 6]) ∧
        evaluate (.start document 0) (.union lists items) = .ok (.nodes [1, 2, 3, 5, 4, 6]) ∧
        evaluate (.start document 0) (.path (.union lists items)
          ⟨.child, .any, [.call "last" []]⟩) = .ok (.nodes [3, 4, 6]) ∧
        evaluate (.start document 0) (.path (.union lists items)
          ⟨.child, .any, [.call "count" [.literal ""]]⟩) = .error (.notNodes "count()")) = true := by
    decide +kernel
  obtain ⟨document, reachable, one, two, joined, last, counted⟩ := Document.exists_reachable ran
  have views : (Context.start document 0).Views document :=
    ⟨rfl, reachable.linked.nodup_treeOrder 0⟩
  obtain ⟨⟨both, there, back, -⟩, -, -, steps⟩ := evaluate_union_laws views one two two
  rw [joined] at there
  obtain ⟨⟩ := there
  refine ⟨document, lists, items, reachable, views, rfl, rfl, one, two, back, ?_, ?_⟩
  · rcases steps ⟨.child, .any, [.call "last" []]⟩ (by decide) with
      ⟨⟨fault, fails⟩, -⟩ | ⟨found, whole, parts⟩
    · rw [last] at fails
      cases fails
    · rw [last] at whole
      obtain ⟨⟩ := whole
      exact parts
  · rcases steps ⟨.child, .any, [.call "count" [.literal ""]]⟩ (by decide) with
      ⟨-, fails⟩ | ⟨found, whole, -⟩
    · exact fails
    · rw [counted] at whole
      cases whole

end Path

end ElementQuery

/-
This file says what the calls, the axes and the attributes in a phrase mean.
-/

import ElementQuery.Proofs.Number.Whole
import ElementQuery.Proofs.Path.Meaning

namespace ElementQuery

namespace Document

theorem mergeEqual_of_nodup {nodes : List NodeId} (distinct : nodes.Nodup) :
    mergeEqual nodes = nodes := by
  induction nodes with
  | nil => rfl
  | cons id nodes inductionHypothesis =>
      obtain ⟨fresh, others⟩ := List.nodup_cons.1 distinct
      have different : nodes.head? ≠ some id := fun same => fresh (List.mem_of_mem_head? same)
      rw [mergeEqual, if_neg different, inductionHypothesis others]

/-- Sorting only exchanges places when no node is repeated. -/
theorem sortBy_perm {order nodes : List NodeId} (sorted : order.Nodup) (distinct : nodes.Nodup) :
    (sortBy order nodes).Perm nodes := by
  rw [sortBy_eq_arrange sorted, arrange, mergeEqual_of_nodup
    ((List.mergeSort_perm _ _).nodup_iff.2 (distinct.filter _))]
  have known : (order.filter fun id => nodes.contains id).Perm
      (nodes.filter fun id => order.contains id) := by
    apply (List.perm_ext_iff_of_nodup (sorted.filter _) (distinct.filter _)).2
    intro id
    simp [and_comm]
  exact (known.append (List.mergeSort_perm _ _)).trans (List.filter_append_perm _ _)

end Document

namespace Path

/-- At every element of a document a phrase is a text. -/
def Tells (document : Document) (level : Level) (text : String) (string : NodeId → String) : Prop :=
  Means document level text fun id value => value.toText document = string id

/-- At every element of a document a phrase is a number that denotes an integer. -/
def Counts (document : Document) (level : Level) (text : String) (count : NodeId → Int) : Prop :=
  Means document level text fun id value =>
    ∃ number, value = .number number ∧ number.Denotes (count id)

variable {document : Document} {level : Level} {text other name : String}
  {string needle : NodeId → String} {holds : NodeId → Bool} {places : NodeId → List NodeId}
  {count : NodeId → Int} {kind : NodeId → Value → Prop}

/-- The values of the attributes of a node that share the letters of a name. -/
def valuesAt (document : Document) (name : String) (id : NodeId) : List String :=
  attributeValues document (.name name) [id]

/-- An attribute in a phrase has the values at its name. -/
theorem Means.attribute (valid : isPathName name = true) :
    Means document .primary ("@" ++ name) fun id value =>
      value = .texts (valuesAt document name id) := by
  apply Means.of_evaluate (Phrase.step (StepPhrase.attribute valid))
  intro context views _
  refine ⟨_, ?_, rfl⟩
  rw [evaluate, followStep, if_pos rfl, views.same]
  rfl

/-- As a text, an attribute is its first value, or no text when it has none. -/
theorem Tells.attribute (valid : isPathName name = true) :
    Tells document .or ("@" ++ name) fun id => (valuesAt document name id).head?.getD "" := by
  apply Means.value (Means.loosen (Means.attribute valid) (by decide))
  intro id _
  rfl

/-- As a test, an attribute has to have a value. -/
theorem Meets.attribute (valid : isPathName name = true) :
    Meets document .primary ("@" ++ name) fun id => !(valuesAt document name id).isEmpty := by
  apply (Means.attribute valid).value
  intro id _
  exact ⟨rfl, rfl⟩

/-- An attribute is equal to a text when one of its values is. -/
theorem Meets.attributeEqual {literal wanted : String} (valid : isPathName name = true)
    (means : Means document .primary literal fun _ found => found = .text wanted) :
    Meets document .equality ("@" ++ name ++ " = " ++ literal) fun id =>
      (valuesAt document name id).any (· == wanted) := by
  apply Means.operateValues rfl rfl Sign.equal (by decide)
    ((Means.attribute valid).loosen (by decide : Level.depth .equality ≤ _))
    (means.loosen (by decide : Level.depth .relational ≤ _))
  intro id _
  exact ⟨rfl, rfl⟩

/-- An attribute is unequal to a text when one of its values is. -/
theorem Meets.attributeUnequal {literal wanted : String} (valid : isPathName name = true)
    (means : Means document .primary literal fun _ found => found = .text wanted) :
    Meets document .equality ("@" ++ name ++ " != " ++ literal) fun id =>
      (valuesAt document name id).any (· != wanted) := by
  apply Means.operateValues rfl rfl Sign.notEqual (by decide)
    ((Means.attribute valid).loosen (by decide : Level.depth .equality ≤ _))
    (means.loosen (by decide : Level.depth .relational ≤ _))
  intro id _
  exact ⟨rfl, rfl⟩

/-- Where a step leads is a value of nodes. -/
theorem Leads.means (leads : Leads document text places) :
    Means document .primary text fun id value => ∃ nodes, value = .nodes nodes ∧
      (∀ other, other ∈ nodes ↔ other ∈ places id) ∧
      ((places id).Nodup → nodes.length = (places id).length) := by
  obtain ⟨step, phrase, follows⟩ := leads
  apply Means.of_evaluate (Phrase.step phrase)
  intro context views _
  refine ⟨.nodes (Document.sortBy context.order ([context.node].flatMap places)), ?_, _, rfl,
    fun other => ?_, fun distinct => ?_⟩
  · rw [evaluate, follows context views]
  · rw [Document.mem_sortBy]
    simp
  · rw [List.flatMap_singleton]
    exact (Document.sortBy_perm views.distinct distinct).length_eq

/-- A call of a function with one argument. -/
theorem Means.callOne {function : Function} {given : NodeId → Value → Prop}
    (valid : isPathName name = true) (noKind : nodeTypes.contains name = false)
    (known : Function.ofName? name = some function) (accepts : function.arity.accepts 1 = true)
    (means : Means document .or text given)
    (applied : ∀ (context : Context) (value : Value), context.Views document →
      document.isElement context.node = true → given context.node value →
      ∃ result, function.apply context [value] = .ok result ∧ kind context.node result) :
    Means document .primary (name ++ "(" ++ text ++ ")") kind := by
  have called : Means document .primary
      (name ++ "(" ++ String.intercalate ", " ([(text, given)].map Prod.fst) ++ ")") kind := by
    apply Means.call valid noKind known [(text, given)] accepts
    · intro argument member
      obtain rfl := List.mem_singleton.1 member
      exact means
    · intro context values views element kinds
      cases kinds with
      | cons front rest =>
          cases rest
          exact applied context _ views element front
  simpa using called

/-- A call of a function with two arguments. -/
theorem Means.callTwo {function : Function} {given further : NodeId → Value → Prop}
    (valid : isPathName name = true) (noKind : nodeTypes.contains name = false)
    (known : Function.ofName? name = some function) (accepts : function.arity.accepts 2 = true)
    (one : Means document .or text given) (two : Means document .or other further)
    (applied : ∀ (context : Context) (value operand : Value), context.Views document →
      document.isElement context.node = true → given context.node value →
      further context.node operand →
      ∃ result, function.apply context [value, operand] = .ok result ∧ kind context.node result) :
    Means document .primary (name ++ "(" ++ text ++ ", " ++ other ++ ")") kind := by
  have called : Means document .primary (name ++ "(" ++
      String.intercalate ", " ([(text, given), (other, further)].map Prod.fst) ++ ")") kind := by
    apply Means.call valid noKind known [(text, given), (other, further)] accepts
    · intro argument member
      rcases List.mem_pair.1 member with rfl | rfl
      · exact one
      · exact two
    · intro context values views element kinds
      cases kinds with
      | cons front rest =>
          cases rest with
          | cons back rest =>
              cases rest
              exact applied context _ _ views element front back
  have shape : name ++ "(" ++ text ++ ", " ++ other ++ ")" = name ++ "(" ++
      String.intercalate ", " ([(text, given), (other, further)].map Prod.fst) ++ ")" := by
    apply String.toList_inj.1
    simp
  rw [shape]
  exact called

/-- The places to which a step leads are counted, however many they are. -/
theorem Leads.counted (leads : Leads document text places)
    (distinct : ∀ id, document.isElement id = true → (places id).Nodup) :
    Means document .primary ("count(" ++ text ++ ")") fun id value =>
      value = .number (.ofNat (places id).length) := by
  apply Means.callOne (by decide) (by decide) (rfl : Function.ofName? "count" = _) rfl
    (leads.means.loosen (by decide))
  intro context value views element found
  obtain ⟨nodes, rfl, -, length⟩ := found
  refine ⟨_, rfl, ?_⟩
  rw [← length (distinct _ element)]

/-- A step is a test of whether it leads anywhere. -/
theorem Leads.meets (leads : Leads document text places) :
    Meets document .primary text fun id => !(places id).isEmpty := by
  apply leads.means.weaken
  intro id value _ found
  obtain ⟨nodes, rfl, same, -⟩ := found
  have empty : nodes = [] ↔ places id = [] := by
    simp only [List.eq_nil_iff_forall_not_mem, same]
  constructor
  · rfl
  · show (!nodes.isEmpty) = !(places id).isEmpty
    rw [Bool.eq_iff_iff]
    simp [empty]

theorem Tells.contains (one : Tells document .or text string) (two : Tells document .or other needle) :
    Meets document .primary ("contains(" ++ text ++ ", " ++ other ++ ")") fun id =>
      Text.occurs (needle id).toList (string id).toList := by
  apply Means.callTwo (by decide) (by decide) (rfl : Function.ofName? "contains" = _) rfl one two
  intro context value operand views _ front back
  refine ⟨_, rfl, rfl, ?_⟩
  show Text.occurs (operand.toText context.document).toList (value.toText context.document).toList = _
  rw [views.same, front, back]

theorem Tells.startsWith (one : Tells document .or text string)
    (two : Tells document .or other needle) :
    Meets document .primary ("starts-with(" ++ text ++ ", " ++ other ++ ")") fun id =>
      (needle id).toList.isPrefixOf (string id).toList := by
  apply Means.callTwo (by decide) (by decide) (rfl : Function.ofName? "starts-with" = _) rfl one two
  intro context value operand views _ front back
  refine ⟨_, rfl, rfl, ?_⟩
  show (operand.toText context.document).toList.isPrefixOf
    (value.toText context.document).toList = _
  rw [views.same, front, back]

theorem Tells.stringLength (one : Tells document .or text string) :
    Means document .primary ("string-length(" ++ text ++ ")") fun id value =>
      value = .number (.ofNat (string id).toList.length) := by
  apply Means.callOne (by decide) (by decide) (rfl : Function.ofName? "string-length" = _) rfl one
  intro context value views _ known
  refine ⟨_, rfl, ?_⟩
  show Value.number (.ofNat (value.toText context.document).toList.length) = _
  rw [views.same, known]

/-- What is negated holds where it did not hold. -/
theorem Meets.not (meets : Meets document .or text holds) :
    Meets document .primary ("not(" ++ text ++ ")") fun id => !holds id := by
  apply Means.callOne (by decide) (by decide) (rfl : Function.ofName? "not" = _) rfl meets
  intro context value _ _ kind
  refine ⟨_, rfl, rfl, ?_⟩
  show (!value.toBoolean) = _
  rw [kind.2]

theorem Meets.falsehood : Meets document .primary "false()" fun _ => false := by
  apply Means.call (by decide) (by decide) (rfl : Function.ofName? "false" = _) [] rfl (by simp)
  intro context values _ _ kinds
  cases kinds
  exact ⟨_, rfl, rfl, rfl⟩

/-- Texts are joined by a call with two of them or more. -/
theorem Tells.concat (parts : List (String × (NodeId → String))) (several : 2 ≤ parts.length)
    (each : ∀ part ∈ parts, Tells document .or part.1 part.2) :
    Means document .primary ("concat(" ++ String.intercalate ", " (parts.map Prod.fst) ++ ")")
      fun id value => value = .text (String.join (parts.map fun part => part.2 id)) := by
  have texts : parts.map Prod.fst = (parts.map fun part =>
      (part.1, fun id (value : Value) => value.toText document = part.2 id)).map Prod.fst := by
    simp
  rw [texts]
  apply Means.call (by decide) (by decide) (rfl : Function.ofName? "concat" = _)
  · simp [Function.arity, Arity.accepts, several]
  · intro argument member
    obtain ⟨part, known, rfl⟩ := List.mem_map.1 member
    exact each part known
  · intro context values views _ kinds
    refine ⟨_, rfl, ?_⟩
    have joined : values.map (Value.toText context.document) =
        parts.map fun part => part.2 context.node := by
      rw [views.same]
      clear texts several each
      induction parts generalizing values with
      | nil =>
          cases kinds
          rfl
      | cons part parts inductionHypothesis =>
          cases kinds with
          | cons front rest => rw [List.map_cons, List.map_cons, front, inductionHypothesis _ rest]
    rw [joined]

end Path

end ElementQuery

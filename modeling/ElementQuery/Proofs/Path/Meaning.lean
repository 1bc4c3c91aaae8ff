/-
This file says what phrases mean: the values that their expressions have at the elements of a document.
-/

import ElementQuery.Path.Evaluation
import ElementQuery.Proofs.Document.Preorder
import ElementQuery.Proofs.Path.Phrase
import Mathlib.Data.List.Induction
import Mathlib.Data.List.Forall2

namespace ElementQuery.Path

/-- A context looks at a document when its order names no node twice. -/
structure Context.Views (context : Context) (document : Document) : Prop where
  same : context.document = document
  distinct : context.order.Nodup

theorem Context.Views.moved {context : Context} {document : Document} {node : NodeId}
    {position size : Nat} (views : context.Views document) :
    (context.moved node position size).Views document :=
  ⟨views.same, views.distinct⟩

section Operators

variable {context : Context} {left right : Expression} {first second : Value} {operator : Operator}

/-- An operator that evaluates both operands is applied to their values. -/
theorem evaluate_binary (eager : operator ≠ .or ∧ operator ≠ .and)
    (one : evaluate context left = .ok first) (two : evaluate context right = .ok second) :
    evaluate context (.binary operator left right) =
      .ok (applyOperator context.document operator first second) := by
  rw [evaluate, one, two]
  simp [bind, Except.bind, eager.1, eager.2, pure, Except.pure]

theorem evaluate_and (one : evaluate context left = .ok first)
    (two : evaluate context right = .ok second) :
    evaluate context (.binary .and left right) =
      .ok (.boolean (first.toBoolean && second.toBoolean)) := by
  rw [evaluate, one, two]
  cases truth : first.toBoolean <;> simp [bind, Except.bind, pure, Except.pure, truth]

end Operators

/-- At every element of a document a phrase has a value of a kind. -/
def Means (document : Document) (level : Level) (text : String) (kind : NodeId → Value → Prop) :
    Prop :=
  ∃ expression, Phrase level text expression ∧ ∀ context : Context, context.Views document →
    document.isElement context.node = true →
    ∃ value, evaluate context expression = .ok value ∧ kind context.node value

/-- As a predicate, a phrase keeps the elements of which a test holds. -/
def Meets (document : Document) (level : Level) (text : String) (holds : NodeId → Bool) : Prop :=
  Means document level text fun id value => value.isNumber = false ∧ value.toBoolean = holds id

namespace Means

variable {document : Document} {level below wanted : Level} {text left right sign : String}
  {kind weaker first second : NodeId → Value → Prop} {token : Token} {operator : Operator}
  {operators : Token → Option (Expression → Expression → Expression)}

theorem loosen (means : Means document level text kind) (within : wanted.depth ≤ level.depth) :
    Means document wanted text kind := by
  obtain ⟨expression, phrase, evaluates⟩ := means
  exact ⟨expression, phrase.loosen within, evaluates⟩

theorem of_evaluate {expression : Expression} (phrase : Phrase level text expression)
    (evaluates : ∀ context : Context, context.Views document →
      document.isElement context.node = true →
      ∃ value, evaluate context expression = .ok value ∧ kind context.node value) :
    Means document level text kind :=
  ⟨expression, phrase, evaluates⟩

theorem weaken (means : Means document level text kind)
    (implied : ∀ id value, document.isElement id = true → kind id value → weaker id value) :
    Means document level text weaker := by
  obtain ⟨expression, phrase, evaluates⟩ := means
  apply of_evaluate phrase
  intro context views element
  obtain ⟨value, evaluated, known⟩ := evaluates context views element
  exact ⟨value, evaluated, implied _ _ element known⟩

theorem number (n : Nat) :
    Means document .primary (toString n) fun _ value => value = .number (.ofNat n) :=
  ⟨_, Phrase.number n, fun _ _ _ => ⟨_, rfl, rfl⟩⟩

/-- Phrases are joined by an operator that evaluates both operands. -/
theorem operate (joins : level.operators? = some (operators, below))
    (known : operators token = some (.binary operator)) (signs : Sign sign token)
    (eager : operator ≠ .or ∧ operator ≠ .and) (one : Means document level left first)
    (two : Means document below right second)
    (applied : ∀ id value other, document.isElement id = true → first id value → second id other →
      kind id (applyOperator document operator value other)) :
    Means document level (left ++ sign ++ right) kind := by
  obtain ⟨expression, phrase, evaluates⟩ := one
  obtain ⟨operand, further, follows⟩ := two
  apply of_evaluate (Phrase.binary joins known signs phrase further)
  intro context views element
  obtain ⟨value, evaluated, front⟩ := evaluates context views element
  obtain ⟨other, computed, back⟩ := follows context views element
  refine ⟨_, ?_, applied _ _ _ element front back⟩
  rw [evaluate_binary eager evaluated computed, views.same]

/-- A known value is of every kind to which it belongs. -/
theorem value {given : NodeId → Value} (means : Means document level text fun id value => value = given id)
    (implied : ∀ id, document.isElement id = true → kind id (given id)) :
    Means document level text kind := by
  apply means.weaken
  intro id value element same
  rw [same]
  exact implied id element

/-- An operator that evaluates both operands is applied to known values. -/
theorem operateValues {given other : NodeId → Value} (joins : level.operators? = some (operators, below))
    (known : operators token = some (.binary operator)) (signs : Sign sign token)
    (eager : operator ≠ .or ∧ operator ≠ .and)
    (one : Means document level left fun id value => value = given id)
    (two : Means document below right fun id value => value = other id)
    (applied : ∀ id, document.isElement id = true →
      kind id (applyOperator document operator (given id) (other id))) :
    Means document level (left ++ sign ++ right) kind := by
  apply operate joins known signs eager one two
  intro id value operand element same equal
  rw [same, equal]
  exact applied id element

theorem exists_arguments (arguments : List (String × (NodeId → Value → Prop)))
    (each : ∀ argument ∈ arguments, Means document .or argument.1 argument.2) :
    ∃ pairs : List (String × Expression), pairs.map Prod.fst = arguments.map Prod.fst ∧
      (∀ pair ∈ pairs, Phrase .or pair.1 pair.2) ∧ ∀ context : Context, context.Views document →
      document.isElement context.node = true →
      ∃ values, evaluateAll context (pairs.map Prod.snd) = .ok values ∧
        List.Forall₂ (fun argument value => argument.2 context.node value) arguments values := by
  induction arguments with
  | nil => exact ⟨[], rfl, by simp, fun _ _ _ => ⟨[], rfl, .nil⟩⟩
  | cons argument arguments inductionHypothesis =>
      obtain ⟨expression, phrase, evaluates⟩ := each argument List.mem_cons_self
      obtain ⟨pairs, texts, phrases, follows⟩ := inductionHypothesis fun other member =>
        each other (List.mem_cons_of_mem _ member)
      refine ⟨(argument.1, expression) :: pairs, by simp [texts], ?_, fun context views element => ?_⟩
      · intro pair member
        rcases List.mem_cons.1 member with rfl | later
        · exact phrase
        · exact phrases pair later
      · obtain ⟨value, evaluated, front⟩ := evaluates context views element
        obtain ⟨values, computed, back⟩ := follows context views element
        refine ⟨value :: values, ?_, .cons front back⟩
        rw [List.map_cons, evaluateAll, evaluated, computed]
        rfl

/-- A function is applied to the values of its arguments. -/
theorem call {name : String} {function : Function} (valid : isPathName name = true)
    (noKind : nodeTypes.contains name = false) (known : Function.ofName? name = some function)
    (arguments : List (String × (NodeId → Value → Prop)))
    (accepts : function.arity.accepts arguments.length = true)
    (each : ∀ argument ∈ arguments, Means document .or argument.1 argument.2)
    (applied : ∀ (context : Context) (values : List Value), context.Views document →
      document.isElement context.node = true →
      List.Forall₂ (fun argument value => argument.2 context.node value) arguments values →
      ∃ value, function.apply context values = .ok value ∧ kind context.node value) :
    Means document .primary
      (name ++ "(" ++ String.intercalate ", " (arguments.map Prod.fst) ++ ")") kind := by
  obtain ⟨pairs, texts, phrases, evaluates⟩ := exists_arguments arguments each
  rw [← texts]
  apply of_evaluate (Phrase.call valid noKind pairs phrases)
  intro context views element
  obtain ⟨values, evaluated, kinds⟩ := evaluates context views element
  obtain ⟨value, computed, fits⟩ := applied context values views element kinds
  refine ⟨value, ?_, fits⟩
  have count : (pairs.map Prod.snd).length = arguments.length := by
    rw [List.length_map, ← List.length_map Prod.fst, texts, List.length_map]
  rw [evaluate, known]
  dsimp only
  rw [count, if_pos accepts, evaluated]
  exact computed

end Means

theorem isKept_of_isNumber {position : Nat} {value : Value} (other : value.isNumber = false) :
    isKept position value = value.toBoolean := by
  cases value with
  | number value => cases other
  | nodes ids | boolean value | text value | texts values => rfl

namespace Meets

variable {document : Document} {level : Level} {text left right : String}
  {holds first second : NodeId → Bool}

theorem loosen {wanted : Level} (meets : Meets document level text holds)
    (within : wanted.depth ≤ level.depth) : Meets document wanted text holds :=
  Means.loosen meets within

/-- A test may be replaced by one that holds of the same elements. -/
theorem congr (meets : Meets document level text first)
    (same : ∀ id element, document.element? id = some element → first id = second id) :
    Meets document level text second := by
  apply Means.weaken meets
  intro id value held given
  obtain ⟨noNumber, truth⟩ := given
  obtain ⟨element, known⟩ := Option.isSome_iff_exists.1 held
  exact ⟨noNumber, truth.trans (same id element known)⟩

/-- A conjunction holds where both of its parts do. -/
theorem and (one : Meets document .and left first) (two : Meets document .equality right second) :
    Meets document .and (left ++ " and " ++ right) fun id => first id && second id := by
  obtain ⟨expression, phrase, evaluates⟩ := one
  obtain ⟨operand, further, follows⟩ := two
  apply Means.of_evaluate (Phrase.binary rfl rfl Sign.and phrase further)
  intro context views element
  obtain ⟨value, evaluated, -, front⟩ := evaluates context views element
  obtain ⟨other, computed, -, back⟩ := follows context views element
  refine ⟨.boolean (first context.node && second context.node), ?_, rfl, rfl⟩
  rw [← front, ← back, evaluate_and evaluated computed]

/-- Tests that are joined hold where each of them does. -/
theorem conjunction (tests : List (String × (NodeId → Bool))) (nonempty : tests ≠ [])
    (each : ∀ test ∈ tests, Meets document .equality test.1 test.2) :
    Meets document .and (String.intercalate " and " (tests.map Prod.fst)) fun id =>
      tests.all fun test => test.2 id := by
  induction tests using List.reverseRecOn with
  | nil => exact absurd rfl nonempty
  | append_singleton tests test inductionHypothesis =>
      have last : Meets document .equality test.1 test.2 := each test (by simp)
      by_cases single : tests = []
      · subst single
        have whole : Meets document .and test.1 test.2 := Means.loosen last (by decide)
        simpa using whole
      · have front := inductionHypothesis single fun other member => each other (by simp [member])
        have shape : String.intercalate " and " ((tests ++ [test]).map Prod.fst) =
            String.intercalate " and " (tests.map Prod.fst) ++ " and " ++ test.1 := by
          rw [List.map_append, String.intercalate_append_of_ne_nil (by simpa using single) (by simp)]
          simp
        rw [shape]
        simpa using front.and last

/-- Evaluated at an element, a test keeps it at every position or at none. -/
theorem evaluateAt_eq (meets : Meets document level text holds) (linked : document.Linked) {id : NodeId}
    (element : document.isElement id = true) : ∃ expression value, parse text = .ok expression ∧
      evaluateAt document id expression = .ok value ∧ value.toBoolean = holds id ∧
      ∀ position, isKept position value = value.toBoolean := by
  obtain ⟨expression, phrase, evaluates⟩ := meets
  obtain ⟨value, evaluated, other, truth⟩ := evaluates (.start document id)
    ⟨rfl, linked.nodup_subtree _⟩ element
  obtain ⟨content, held⟩ := Document.isElement_iff.1 element
  have known : (document.node? id).isSome = true :=
    Document.node?_isSome_iff.2 (Document.lt_size_of_content? held)
  refine ⟨expression, value, phrase.parse_eq, ?_, truth, fun position => isKept_of_isNumber other⟩
  rw [evaluateAt, if_pos known, evaluated]

end Meets

/-- A step phrase leads from every node to places, and what is found is put into order. -/
def Leads (document : Document) (text : String) (places : NodeId → List NodeId) : Prop :=
  ∃ step, StepPhrase text step ∧ ∀ context : Context, context.Views document → ∀ nodes,
    followStep context nodes step =
      .ok (.nodes (Document.sortBy context.order (nodes.flatMap places)))

theorem keepFrom_eq_filter {test : Nat → NodeId → Except Error Bool} {holds : NodeId → Bool}
    {nodes : List NodeId} (each : ∀ id ∈ nodes, ∀ position, test position id = .ok (holds id))
    (position : Nat) : keepFrom test position nodes = .ok (nodes.filter holds) := by
  induction nodes generalizing position with
  | nil => rfl
  | cons id nodes inductionHypothesis =>
      rw [keepFrom, each id List.mem_cons_self,
        inductionHypothesis fun other member => each other (List.mem_cons_of_mem _ member)]
      cases kept : holds id <;> simp [kept, bind, Except.bind, pure, Except.pure]

theorem gather_eq_flatMap {select : NodeId → Except Error (List NodeId)}
    {places : NodeId → List NodeId} (each : ∀ id, select id = .ok (places id))
    (nodes : List NodeId) : gather select nodes = .ok (nodes.flatMap places) := by
  induction nodes with
  | nil => rfl
  | cons id nodes inductionHypothesis =>
      rw [gather, each, inductionHypothesis]
      rfl

/-- Tests in brackets keep the elements of which each of them holds. -/
theorem exists_predicates {document : Document} (tests : List (String × (NodeId → Bool)))
    (each : ∀ test ∈ tests, Meets document .or test.1 test.2) :
    ∃ pairs : List (String × Expression), pairs.map Prod.fst = tests.map Prod.fst ∧
      (∀ pair ∈ pairs, Phrase .or pair.1 pair.2) ∧ ∀ context : Context, context.Views document →
      ∀ nodes : List NodeId, (∀ id ∈ nodes, document.isElement id = true) →
      filterAll context (pairs.map Prod.snd) nodes =
        .ok (nodes.filter fun id => tests.all fun test => test.2 id) := by
  induction tests with
  | nil => exact ⟨[], rfl, by simp, fun _ _ nodes _ => by simp [filterAll]⟩
  | cons test tests inductionHypothesis =>
      obtain ⟨expression, phrase, evaluates⟩ := each test List.mem_cons_self
      obtain ⟨pairs, texts, phrases, filters⟩ := inductionHypothesis fun other member =>
        each other (List.mem_cons_of_mem _ member)
      refine ⟨(test.1, expression) :: pairs, by simp [texts], ?_, fun context views nodes elements => ?_⟩
      · intro pair member
        rcases List.mem_cons.1 member with rfl | later
        · exact phrase
        · exact phrases pair later
      · have kept : ∀ id ∈ nodes, ∀ position, (do
            let value ← evaluate (context.moved id position nodes.length) expression
            return isKept position value : Except Error Bool) = .ok (test.2 id) := by
          intro id member position
          obtain ⟨value, evaluated, other, holds⟩ :=
            evaluates (context.moved id position nodes.length) views.moved (elements id member)
          rw [evaluated]
          exact congrArg Except.ok ((isKept_of_isNumber other).trans holds)
        rw [List.map_cons, filterAll, keepFrom_eq_filter kept]
        show filterAll context _ _ = _
        rw [filters context views _ fun id member => elements id (List.mem_filter.1 member).1,
          List.filter_filter]
        simp [Bool.and_comm]

namespace Leads

variable {document : Document} {text : String} {test : NodeTest}

theorem axis {axis : Axis} (along : axis ≠ .attribute) (tested : TestPhrase text test)
    (tests : List (String × (NodeId → Bool)))
    (elements : tests = [] ∨ ∀ id, test.accepts document id = true → document.isElement id = true)
    (each : ∀ test ∈ tests, Meets document .or test.1 test.2) :
    Leads document (axis.name ++ "::" ++ text ++
        String.join (tests.map fun test => "[" ++ test.1 ++ "]")) fun id =>
      (candidates document axis test id).filter fun other => tests.all fun test => test.2 other := by
  obtain ⟨pairs, texts, phrases, filters⟩ := exists_predicates tests each
  have shape : tests.map (fun test => "[" ++ test.1 ++ "]") =
      pairs.map fun pair => "[" ++ pair.1 ++ "]" := by
    have joined := congrArg (List.map fun text => "[" ++ text ++ "]") texts.symm
    rwa [List.map_map, List.map_map] at joined
  rw [shape]
  refine ⟨_, StepPhrase.axis axis tested pairs phrases, fun context views nodes => ?_⟩
  have found : ∀ id, filterAll context (pairs.map Prod.snd)
      (candidates context.document axis test id) =
      .ok ((candidates document axis test id).filter fun other =>
        tests.all fun test => test.2 other) := by
    intro id
    rw [views.same]
    rcases elements with rfl | elements
    · obtain rfl := List.map_eq_nil_iff.1 texts
      simp [filterAll]
    · exact filters context views _ fun other member => elements other (List.mem_filter.1 member).2
  rw [followStep, if_neg along, gather_eq_flatMap found]
  rfl

/-- Without tests, an axis leads to all that pass the node test. -/
theorem plainAxis {axis : Axis} (along : axis ≠ .attribute) (tested : TestPhrase text test) :
    Leads document (axis.name ++ "::" ++ text) (candidates document axis test) := by
  have leads := @Leads.axis document text test axis along tested [] (.inl rfl) (by simp)
  simpa using leads

end Leads

/-- The path of a text selects nodes from a scope. -/
def Reaches (document : Document) (text : String) (scope : NodeId) (selected : List NodeId) : Prop :=
  ∃ expression, Phrase .path text expression ∧ ∀ context : Context, context.Views document →
    context.node = scope → ∃ found, evaluate context expression = .ok (.nodes found) ∧
    ∀ id, id ∈ found ↔ id ∈ selected

namespace Reaches

variable {document : Document} {scope : NodeId} {text further : String} {selected next : List NodeId}
  {places : NodeId → List NodeId}

theorem start : Reaches document "." scope [scope] := by
  refine ⟨_, Phrase.context.loosen (by decide), fun context _ place => ⟨[scope], ?_, by simp⟩⟩
  rw [evaluate, place]

/-- A step that leads from what is selected to what comes next. -/
theorem step (reaches : Reaches document text scope selected) (leads : Leads document further places)
    (agrees : ∀ id, id ∈ next ↔ ∃ earlier ∈ selected, id ∈ places earlier) :
    Reaches document (text ++ "/" ++ further) scope next := by
  obtain ⟨expression, phrase, evaluates⟩ := reaches
  obtain ⟨step, along, follows⟩ := leads
  refine ⟨_, Phrase.path phrase along, fun context views place => ?_⟩
  obtain ⟨found, evaluated, same⟩ := evaluates context views place
  refine ⟨Document.sortBy context.order (found.flatMap places), ?_, fun id => ?_⟩
  · rw [evaluate, evaluated]
    exact follows context views found
  · rw [Document.mem_sortBy, List.mem_flatMap, agrees]
    simp only [same]

/-- The text of a path selects what it reaches. -/
theorem select_eq (reaches : Reaches document text scope selected) (linked : document.Linked)
    (known : (document.node? scope).isSome = true) :
    ∃ nodes, select document text scope = .ok nodes ∧ ∀ id, id ∈ nodes ↔ id ∈ selected := by
  obtain ⟨expression, phrase, evaluates⟩ := reaches
  obtain ⟨found, evaluated, same⟩ := evaluates (.start document scope)
    ⟨rfl, linked.nodup_subtree _⟩ rfl
  refine ⟨found, ?_, same⟩
  rw [select, phrase.parse_eq]
  show (evaluateAt document scope expression >>= _) = _
  rw [evaluateAt, if_pos known, evaluated]
  rfl

end Reaches

end ElementQuery.Path

/-
This file shows that both readers agree on the common language: a query selects the same elements below the
document node, whether it is matched from its last compound backwards or followed step by step.
-/

import ElementQuery.Proofs.Common.LenientReading
import ElementQuery.Proofs.Common.Meaning
import ElementQuery.Proofs.Common.StrictReading
import ElementQuery.Proofs.Document.Trees
import ElementQuery.Proofs.Group.Cache
import ElementQuery.Proofs.Selector.Chain

namespace ElementQuery

namespace Document

variable {document : Document}

/-- A document is never so large that a position among siblings is out of reach. -/
theorem Linked.positions?_lt (linked : document.Linked) (small : document.size < Progression.positionLimit)
    {kin : Kin} {id : NodeId} {found : Nat × Nat} (counted : document.positions? kin id = some found) :
    found.1 < Progression.positionLimit := by
  obtain ⟨parent, -, rest⟩ := Option.bind_eq_some_iff.1 counted
  obtain ⟨index, place, rfl⟩ := Option.map_eq_some_iff.1 rest
  obtain ⟨inside, -⟩ := List.idxOf?_eq_some_iff.1 place
  have fewer : (document.kindred kin parent id).length ≤ (document.children parent).length := by
    cases kin with
    | any => exact List.length_filter_le _ _
    | sameTag => exact (List.length_filter_le _ _).trans (List.length_filter_le _ _)
  have bounded := linked.length_children_le parent
  show index + 1 < Progression.positionLimit
  omega

end Document

namespace Common

open ElementQuery.Group

variable {document : Document} {id other : NodeId}

section Combinators

/-- Looking back over a combinator finds the elements that stand in its relation. -/
theorem mem_candidates_iff_relates (linked : document.Linked) (element : document.isElement other = true)
    {combinator : Selector.Combinator} : other ∈ Selector.candidates document id combinator ↔
      combinator.lenient.Relates document other id := by
  rw [Selector.mem_candidates_iff_joins linked]
  cases combinator with
  | descendant | child => exact Iff.rfl
  | nextSibling | laterSibling => exact and_iff_right element

/-- Looking back and going forward over a combinator are converses. -/
theorem mem_candidates_iff_mem_places (linked : document.Linked)
    (before : document.isElement other = true) (behind : document.isElement id = true)
    {combinator : Selector.Combinator} : other ∈ Selector.candidates document id combinator ↔
      id ∈ combinator.lenient.places document other :=
  (mem_candidates_iff_relates linked before).trans
    (Combinator.mem_places_iff_relates linked behind).symm

/-- Looking back never leaves the tree. -/
theorem top_of_mem_candidates (linked : document.Linked) {combinator : Selector.Combinator}
    (member : other ∈ Selector.candidates document id combinator) :
    document.top other = document.top id := by
  cases combinator with
  | descendant => exact (linked.top_of_mem_ancestors member).symm
  | child => exact (linked.top_of_parent? (Option.mem_toList.1 member)).symm
  | nextSibling =>
      exact linked.top_of_mem_siblings
        (.inr (List.mem_of_find?_eq_some (Option.mem_toList.1 member)))
  | laterSibling => exact linked.top_of_mem_siblings (.inr (List.mem_filter.1 member).1)

end Combinators

section Steps

/-- A step that asks for no id and exchanges nothing. -/
structure Steady (step : Step) : Prop where
  noId : step.compound.id = none
  steady : ∀ pseudo ∈ step.pseudos, pseudo.exchange? = none

theorem Steady.add {step : Step} (steady : Steady step) :
    ∀ condition : Condition, Steady (step.add condition.lenient)
  | .test (.hasClass _) | .test (.attribute _ _ _) => ⟨steady.noId, steady.steady⟩
  | .plain pseudo => by
      refine ⟨steady.noId, fun other member => ?_⟩
      rcases List.mem_append.1 member with earlier | last
      · exact steady.steady other earlier
      · rw [List.mem_singleton.1 last]
        cases pseudo <;> rfl
  | .position _ | .ofType _ | .negation _ => by
      refine ⟨steady.noId, fun other member => ?_⟩
      rcases List.mem_append.1 member with earlier | last
      · exact steady.steady other earlier
      · rw [List.mem_singleton.1 last]
        rfl

theorem combinator_add (step : Step) (fragment : Fragment) :
    (step.add fragment).combinator = step.combinator := by
  cases fragment <;> rfl

theorem steady_step (combinator : Group.Combinator) (compound : Compound Condition) :
    Steady (compound.step combinator) ∧ (compound.step combinator).combinator = combinator := by
  obtain ⟨tag, conditions, nonempty⟩ := compound
  have kept : ∀ step : Step, Steady step →
      Steady ((conditions.map Spelled.lenient).foldl Step.add step) ∧
        ((conditions.map Spelled.lenient).foldl Step.add step).combinator = step.combinator := by
    clear nonempty
    induction conditions with
    | nil => exact fun step steady => ⟨steady, rfl⟩
    | cons condition conditions inductionHypothesis =>
        intro step steady
        obtain ⟨later, same⟩ := inductionHypothesis _ (steady.add condition)
        exact ⟨later, same.trans (combinator_add step condition.lenient)⟩
  exact kept _ ⟨rfl, by simp⟩

/-- A step of the common language leads to the nodes in the places of its combinator that meet it. -/
theorem mem_follow_step (linked : document.Linked) {combinator : Group.Combinator}
    {compound : Compound Condition} {previous : List NodeId} :
    id ∈ (compound.step combinator).follow document previous ↔ ∃ earlier ∈ previous,
      id ∈ combinator.places document earlier ∧ (compound.step combinator).isMet document id = true := by
  obtain ⟨steady, same⟩ := steady_step combinator compound
  have exchanges : (compound.step combinator).ExchangesFirst := by
    intro index pseudo place exchange
    rw [steady.steady pseudo (List.mem_of_getElem? place)] at exchange
    cases exchange
  rw [Step.mem_follow linked (fun _ => steady.noId) exchanges, same]

end Steps

section Walks

/-- Nodes are those elements of the tree below the document node of which a selector holds. -/
def Selects (document : Document) (nodes : List NodeId) (complex : Selector.Complex) : Prop :=
  ∀ id, id ∈ nodes ↔ document.top id = Document.root ∧ complex.holds document id = true

theorem isElement_of_compoundHolds {compound : Selector.Compound}
    (holds : Selector.compoundHolds document compound id = true) : document.isElement id = true := by
  cases held : document.element? id with
  | none => simp [Selector.compoundHolds, held] at holds
  | some element => simp [Document.isElement, held]

theorem isElement_of_holds {complex : Selector.Complex} (holds : complex.holds document id = true) :
    document.isElement id = true :=
  isElement_of_compoundHolds (Bool.and_eq_true_iff.1 holds).1

theorem holds_extend {complex : Selector.Complex} {combinator : Selector.Combinator}
    {subject : Selector.Compound} : (complex.extend combinator subject).holds document id = true ↔
      Selector.compoundHolds document subject id = true ∧
        ∃ other ∈ Selector.candidates document id combinator, complex.holds document other = true := by
  rw [Selector.Complex.holds, Selector.Complex.extend, Bool.and_eq_true, Selector.chainHolds,
    List.any_eq_true]
  rfl

/-- A further step selects what the extended selector holds of. -/
theorem Selects.extend (linked : document.Linked) (countable : ∀ id, Countable document id)
    {nodes : List NodeId} {complex : Selector.Complex} (selects : Selects document nodes complex)
    (combinator : Selector.Combinator) (compound : Compound Condition) :
    Selects document ((compound.step combinator.lenient).follow document nodes)
      (complex.extend combinator compound.strict) := by
  intro id
  rw [mem_follow_step linked, holds_extend,
    compoundHolds_strict linked (countable id) combinator.lenient compound]
  constructor
  · intro given
    obtain ⟨earlier, member, place, met⟩ := given
    obtain ⟨inside, holds⟩ := (selects earlier).1 member
    have element : document.isElement id = true := by
      rw [← compoundHolds_strict linked (countable id)] at met
      exact isElement_of_compoundHolds met
    have candidate := (mem_candidates_iff_mem_places linked (isElement_of_holds holds) element).2 place
    exact ⟨(top_of_mem_candidates linked candidate).symm.trans inside, met, earlier, candidate, holds⟩
  · intro given
    obtain ⟨inside, met, earlier, candidate, holds⟩ := given
    have element : document.isElement id = true := by
      rw [← compoundHolds_strict linked (countable id)] at met
      exact isElement_of_compoundHolds met
    refine ⟨earlier, (selects earlier).2 ⟨?_, holds⟩, ?_, met⟩
    · exact (top_of_mem_candidates linked candidate).trans inside
    · exact (mem_candidates_iff_mem_places linked (isElement_of_holds holds) element).1 candidate

/-- All further steps select what the whole selector holds of. -/
theorem Selects.foldl_extend (linked : document.Linked) (countable : ∀ id, Countable document id)
    {nodes : List NodeId} {complex : Selector.Complex} (selects : Selects document nodes complex)
    (tail : List (Joint × Compound Condition)) :
    Selects document
      ((tail.map fun part => part.2.step part.1.combinator.lenient).foldl (Step.follow document) nodes)
      (tail.foldl (fun complex part => complex.extend part.1.combinator part.2.strict) complex) := by
  induction tail generalizing nodes complex with
  | nil => exact selects
  | cons part tail inductionHypothesis =>
      exact inductionHypothesis (selects.extend linked countable part.1.combinator part.2)

/-- Below a document node without a parent lie the other nodes of its tree. -/
theorem mem_descendants_root (linked : document.Linked) (whole : document.parent? Document.root = none)
    (different : id ≠ Document.root) :
    id ∈ document.descendants Document.root ↔ document.top id = Document.root := by
  have still := Document.top_of_parent?_eq_none whole
  have order := @Document.Linked.mem_treeOrder document id Document.root linked
  rw [Document.treeOrder, still, List.mem_cons, or_iff_right different] at order
  exact order

/-- The first step selects below the document node what the first compound holds of. -/
theorem selects_head (linked : document.Linked) (countable : ∀ id, Countable document id)
    (whole : document.parent? Document.root = none)
    (rootless : document.isElement Document.root = false) (compound : Compound Condition) :
    Selects document ((compound.step .descendant).follow document [Document.root])
      { subject := compound.strict } := by
  intro id
  rw [mem_follow_step linked, Selector.Complex.holds, Selector.chainHolds, Bool.and_true,
    compoundHolds_strict linked (countable id) .descendant]
  simp only [List.mem_singleton, exists_eq_left]
  apply and_congr_left
  intro met
  rw [← compoundHolds_strict linked (countable id)] at met
  apply mem_descendants_root linked whole
  rintro rfl
  rw [isElement_of_compoundHolds met] at rootless
  cases rootless

/-- In every reachable document whose document node has no parent, the strict reader accepts each query of
the common language that has no comma, and it selects the same elements as the groups that the lenient reader
makes of the query. The bound is that of the 63 bits which count positions among siblings. -/
theorem selectAll_agree (reachable : Document.Reachable document)
    (whole : document.parent? Document.root = none)
    (small : document.size < Progression.positionLimit) (query : Query)
    (single : ',' ∉ query.text) :
    ∃ nodes, Selector.selectAll document Document.root (String.ofList query.text) = .ok nodes ∧
      ∀ id, id ∈ nodes ↔ id ∈ (Group.parse (String.ofList query.text)).value.flatMap
        (Group.selectAll document Document.root) := by
  have linked := reachable.linked
  have countable : ∀ id, Countable document id :=
    fun id kin found counted => linked.positions?_lt small counted
  have rootless : document.isElement Document.root = false := by
    simp [Document.isElement, Document.element?, reachable.registered.rootContent]
  obtain ⟨source, parsed⟩ := parse_value_query query single
  have followed : Selects document (Group.selectAll document Document.root ⟨source, query.steps, none⟩)
      query.strict := by
    have wellFormed : Group.isMalformed ⟨source, query.steps, none⟩ = false := rfl
    rw [Group.selectAll_eq_foldl, wellFormed, if_neg Bool.false_ne_true]
    exact (selects_head linked countable whole rootless query.head).foldl_extend linked countable query.tail
  refine ⟨_, by rw [Selector.selectAll, parse_query]; rfl, fun id => ?_⟩
  rw [parsed, List.flatMap_singleton, followed id, List.mem_filter]
  simp only [Selector.listHolds, List.any_cons, List.any_nil, Bool.or_false]
  apply and_congr_left
  intro holds
  apply mem_descendants_root linked whole
  rintro rfl
  rw [isElement_of_holds holds] at rootless
  cases rootless

/-- Both readers find the second of three items in a list, and not the third. -/
theorem selectAll_agree_of_list : ∃ document, ∃ query : Query, Document.Reachable document ∧
    document.parent? Document.root = none ∧ document.size < Progression.positionLimit ∧
    ',' ∉ query.text ∧ String.ofList query.text = "ul>li ~ li:nth-of-type(2n):not([id='b'])" ∧
    ∃ nodes, Selector.selectAll document Document.root (String.ofList query.text) = .ok nodes ∧
      3 ∈ nodes ∧ 4 ∉ nodes := by
  have ran : (Document.empty.run? [.createElement "ul" [], .createElement "li" [],
      .createElement "li" [], .createElement "li" [("id", "b")], .append 0 1, .append 1 2,
      .append 1 3, .append 1 4]).any (fun document =>
        document.parent? Document.root = none ∧ document.size = 5 ∧
        (Group.parse "ul>li ~ li:nth-of-type(2n):not([id='b'])").value.flatMap
          (Group.selectAll document Document.root) = [3]) = true := by
    decide +kernel
  obtain ⟨document, reachable, whole, size, selected⟩ := Document.exists_reachable ran
  have small : document.size < Progression.positionLimit := by
    rw [size]
    decide
  let item : Tag := .named ⟨"li".toList, by decide⟩
  let other : Compound Test :=
    ⟨none, [.attribute ⟨"id".toList, by decide⟩ .exact
      ⟨'\x27', ['b'], by decide, by decide, by decide⟩], by simp⟩
  let query : Query := ⟨⟨some (.named ⟨"ul".toList, by decide⟩), [], by simp⟩,
    [(⟨.child, [], [], by simp, by decide⟩, ⟨some item, [], by simp⟩),
      (⟨.laterSibling, [' '], [' '], by decide, by decide⟩,
        ⟨some item, [.ofType ⟨"2n".toList, Progression.even, by decide⟩, .negation other], by simp⟩)]⟩
  have single : ',' ∉ query.text := by decide
  have written : String.ofList query.text = "ul>li ~ li:nth-of-type(2n):not([id='b'])" := by decide
  obtain ⟨nodes, accepted, agrees⟩ := selectAll_agree reachable whole small query single
  rw [written, selected] at agrees
  exact ⟨document, query, reachable, whole, small, single, written, nodes, accepted,
    (agrees 3).2 (by decide), fun member => absurd ((agrees 4).1 member) (by decide)⟩

end Walks

end Common

end ElementQuery

/-
This file shows what the first element of a query is that holds only tag names, blanks and the sign of
children: the evaluator finds the first match in document order, and walking finds a match, which is the same
one unless a step to children starts from an element and from another one below it.
-/

import ElementQuery.Proofs.Common.LenientReading
import ElementQuery.Proofs.Engine.FirstMatch
import ElementQuery.Proofs.Group.Agreement
import ElementQuery.Proofs.Group.Ordered
import ElementQuery.Proofs.Markup.Growth
import ElementQuery.Proofs.Path.NodeOrder

namespace ElementQuery

namespace Path

/-- What an expression selects stands in the order of the tree. -/
theorem select_sublist {document : Document} (linked : document.Linked) {text : String} {node : NodeId}
    {nodes : List NodeId} (selected : select document text node = .ok nodes) :
    nodes.Sublist (document.treeOrder node) := by
  obtain ⟨expression, -, evaluated⟩ := bind_eq_ok.1 selected
  obtain ⟨value, found, final⟩ := bind_eq_ok.1 evaluated
  obtain rfl := pure_eq_ok.1 final
  cases value with
  | nodes nodes =>
      unfold evaluateAt at found
      split at found
      · exact evaluate_sublist linked Context.within_start expression found
      · cases found
  | texts | number | text | boolean => exact List.nil_sublist _

theorem isNameStart_toLower_ascii : ∀ n < 128, (Char.ofNat n).isAlpha = true →
    isNameStart (Char.ofNat n).toLower = true := by
  decide +kernel

/-- A small ASCII letter can begin a name in an expression. -/
theorem isNameStart_toLower {c : Char} (letter : c.isAlpha = true) :
    isNameStart c.toLower = true := by
  have ascii := Text.toNat_lt_of_isAlpha letter
  revert letter
  exact Text.forall_ascii isNameStart_toLower_ascii ascii

end Path

namespace Group

open ElementQuery.Path

/-- Tag paths hold ASCII letters, blanks and the sign of children. -/
def isTagPathChar (c : Char) : Bool := c.isAlpha || Text.isBlank c || c == '>'

/-- A step to descendants or children that asks for a tag name only, which is a name in expressions. -/
structure Step.TagOnly (step : Step) : Prop where
  combinator : step.combinator = .descendant ∨ step.combinator = .child
  compound : ∃ tag, isPathName tag = true ∧ step.compound = { tag }
  pseudos : step.pseudos = []

section Reading

variable {word current text : List Char} {words : List (List Char)}

/-- A word of a tag path is the sign of children or a tag name. -/
def IsTagWord (word : List Char) : Prop :=
  word = ['>'] ∨ word ≠ [] ∧ ∀ c ∈ word, c.isAlpha = true

theorem mem_putWord (member : word ∈ putWord current words) :
    word = current ∧ current ≠ [] ∨ word ∈ words := by
  unfold putWord at member
  split at member
  · exact .inr member
  · rename_i solid
    exact (List.mem_cons.1 member).imp_left fun same => ⟨same, by simpa using solid⟩

/-- A tag path is cut into tag names and signs. -/
theorem isTagWord_of_mem_wordsFrom (letters : ∀ c ∈ current, c.isAlpha = true)
    (plain : ∀ c ∈ text, isTagPathChar c = true) (member : word ∈ wordsFrom {} current text) :
    IsTagWord word := by
  have name : word = current ∧ current ≠ [] → IsTagWord word := by
    rintro ⟨rfl, solid⟩
    exact .inr ⟨solid, letters⟩
  induction text generalizing current with
  | nil => exact (mem_putWord member).elim name fun none => absurd none List.not_mem_nil
  | cons c rest inductionHypothesis =>
      have behind : ∀ d ∈ rest, isTagPathChar d = true := fun d later =>
        plain d (List.mem_cons_of_mem _ later)
      have afresh : word ∈ wordsFrom {} [] rest → IsTagWord word := fun later =>
        inductionHypothesis (by simp) behind later (by simp)
      by_cases letter : c.isAlpha = true
      · have plainChar := Common.isPlain_of_isNameLetter (Common.isNameLetter_of_isAlpha letter)
        have unsigned := Common.ofChar?_of_isNameLetter (Common.isNameLetter_of_isAlpha letter)
        have solid := Common.isBlank_of_isNameLetter (Common.isNameLetter_of_isAlpha letter)
        rw [← List.singleton_append, Common.keeps_run (List.forall_mem_singleton.2 plainChar)
          fun _ => List.forall_mem_singleton.2 ⟨solid, unsigned⟩] at member
        have longer : ∀ d ∈ current ++ [c], d.isAlpha = true :=
          forall_mem_append_singleton letters letter
        refine inductionHypothesis longer behind member ?_
        rintro ⟨rfl, solid⟩
        exact .inr ⟨solid, longer⟩
      · have known := plain c List.mem_cons_self
        simp only [isTagPathChar, letter, Bool.false_or, Bool.or_eq_true, beq_iff_eq] at known
        rw [wordsFrom] at member
        split at member
        · exact (mem_putWord member).elim name afresh
        · rename_i solid
          obtain rfl : c = '>' := known.resolve_left fun blank => solid (by simp [Nesting.isTop, blank])
          rw [if_pos (by decide)] at member
          rcases mem_putWord member with current | later
          · exact name current
          · rcases List.mem_cons.1 later with rfl | further
            · exact .inl rfl
            · exact afresh further

/-- The characters of words come from the text that is cut. -/
theorem mem_of_mem_wordsFrom {nesting : Nesting} {c : Char} (member : word ∈ wordsFrom nesting current text)
    (inside : c ∈ word) : c ∈ current ∨ c ∈ text := by
  induction text generalizing nesting current with
  | nil =>
      rcases mem_putWord member with ⟨rfl, -⟩ | none
      · exact .inl inside
      · exact absurd none List.not_mem_nil
  | cons d rest inductionHypothesis =>
      have afresh : ∀ {nesting}, word ∈ wordsFrom nesting [] rest → c ∈ current ∨ c ∈ d :: rest :=
        fun later => .inr (List.mem_cons_of_mem _ ((inductionHypothesis later).resolve_left (by simp)))
      rw [wordsFrom] at member
      split at member
      · rcases mem_putWord member with ⟨rfl, -⟩ | later
        · exact .inl inside
        · exact afresh later
      · split at member
        · rcases mem_putWord member with ⟨rfl, -⟩ | later
          · exact .inl inside
          · rcases List.mem_cons.1 later with rfl | further
            · rw [List.mem_singleton.1 inside]
              exact .inr List.mem_cons_self
            · exact afresh further
        · have known := inductionHypothesis member
          simp only [List.mem_append, List.mem_cons, List.not_mem_nil, or_false] at known ⊢
          tauto

/-- A tag name is read as a step that asks for nothing else. -/
theorem readStep_letters (combinator : Combinator) (nonempty : word ≠ [])
    (letters : ∀ c ∈ word, c.isAlpha = true) :
    (readStep combinator word).value =
      { combinator, compound := { tag := Text.lower (String.ofList word) } } := by
  have inside : ∀ c ∈ word, isNameChar c = true := fun c member =>
    (Common.isNameChar_of_isNameLetter (Common.isNameLetter_of_isAlpha (letters c member))).2
  obtain ⟨front, behind⟩ := @Text.span_run isNameChar word [] inside (by simp)
  rw [List.append_nil] at front behind
  rw [readStep, readStepWithin, front, behind, if_neg (by simpa using nonempty)]
  cases word <;> rfl

theorem isPathName_lower (nonempty : word ≠ []) (letters : ∀ c ∈ word, c.isAlpha = true) :
    isPathName (Text.lower (String.ofList word)) = true := by
  unfold isPathName
  rw [Text.lower, String.toList_ofList, String.toList_ofList]
  cases word with
  | nil => exact absurd rfl nonempty
  | cons c rest =>
      simp only [List.map_cons, Bool.and_eq_true, List.all_eq_true, List.mem_map]
      refine ⟨isNameStart_toLower (letters c List.mem_cons_self), ?_⟩
      rintro _ ⟨d, member, rfl⟩
      exact isNameChar_of_isNameStart (isNameStart_toLower (letters d (List.mem_cons_of_mem _ member)))

theorem ofWord?_letters (letters : ∀ c ∈ word, c.isAlpha = true) : Combinator.ofWord? word = none := by
  match word with
  | [] => rfl
  | [c] =>
      exact Common.ofChar?_of_isNameLetter
        (Common.isNameLetter_of_isAlpha (letters c List.mem_cons_self))
  | _ :: _ :: _ => rfl

/-- The words of a tag path are read as steps that ask for tag names only; those to children stand behind a
sign. -/
theorem tagOnly_readWords (source : String) (each : ∀ word ∈ words, IsTagWord word)
    {pending : Option Combinator}
    (downwards : pending.getD .descendant = .descendant ∨ pending.getD .descendant = .child) :
    ∀ step ∈ (readWords source pending words).value.1, step.TagOnly ∧
      (step.combinator = .child → pending.getD .descendant = .child ∨ ['>'] ∈ words) := by
  induction words generalizing pending with
  | nil => simp [readWords]
  | cons word words inductionHypothesis =>
      have later : ∀ word ∈ words, IsTagWord word := fun other member =>
        each other (List.mem_cons_of_mem _ member)
      rcases each word List.mem_cons_self with rfl | ⟨nonempty, letters⟩
      · intro step member
        obtain ⟨tagOnly, -⟩ := @inductionHypothesis later (some .child) (.inr rfl) step member
        exact ⟨tagOnly, fun _ => .inr List.mem_cons_self⟩
      · rw [readWords, ofWord?_letters letters]
        intro step member
        rcases List.mem_cons.1 member with rfl | further
        · rw [readStep_letters _ nonempty letters]
          exact ⟨⟨downwards, ⟨_, isPathName_lower nonempty letters, rfl⟩, rfl⟩, .inl⟩
        · obtain ⟨tagOnly, sign⟩ := @inductionHypothesis later none (.inl rfl) step further
          refine ⟨tagOnly, fun way => .inr (List.mem_cons_of_mem _ ?_)⟩
          exact (sign way).resolve_left (by simp)

theorem mem_of_mem_trim {c : Char} (member : c ∈ Text.trim text) : c ∈ text := by
  rw [Text.trim, List.mem_reverse] at member
  have inside := (List.dropWhile_sublist _).subset member
  exact (List.dropWhile_sublist _).subset (List.mem_reverse.1 inside)

/-- A tag path is read as one group of steps that ask for tag names only, or as none when it is blank. -/
theorem parse_tagPath {query : String} (plain : ∀ c ∈ query.toList, isTagPathChar c = true) :
    (parse query).value = [] ∨
      ∃ group, (parse query).value = [group] ∧ ∀ step ∈ group.steps, step.TagOnly ∧
        (step.combinator = .child → '>' ∈ query.toList) := by
  have trimmed : ∀ c ∈ Text.trim query.toList, isTagPathChar c = true := fun c member =>
    plain c (mem_of_mem_trim member)
  have single : ',' ∉ Text.trim query.toList := fun member => absurd (trimmed ',' member) (by decide)
  rw [parse, Common.splitAtCommas_eq single, readGroups]
  split
  · exact .inl rfl
  · refine .inr ⟨_, rfl, fun step member => ?_⟩
    obtain ⟨tagOnly, sign⟩ := @tagOnly_readWords _ _
      (fun word found => isTagWord_of_mem_wordsFrom (by simp) trimmed found) none (.inl rfl) step member
    refine ⟨tagOnly, fun way => ?_⟩
    have found := (sign way).resolve_left (by simp)
    have inside := (mem_of_mem_wordsFrom found (List.mem_singleton_self '>')).resolve_left (by simp)
    exact mem_of_mem_trim inside

end Reading

section Selecting

variable {document : Document} {step : Step} {scope id : NodeId} {text : String}
  {selected : List NodeId}

theorem Step.TagOnly.downwards (tagOnly : step.TagOnly) : step.Downwards := by
  obtain ⟨combinator, -, pseudos⟩ := tagOnly
  exact ⟨combinator, by simp [pseudos]⟩

/-- The expression of a step that asks for a tag name only reaches what the step leads to. -/
theorem Step.TagOnly.reaches (linked : document.Linked) (tagOnly : step.TagOnly)
    (reaches : Reaches document text scope selected) :
    Reaches document (text ++ step.pathText) scope (step.follow document selected) := by
  obtain ⟨combinator, ⟨tag, named, compound⟩, pseudos⟩ := tagOnly
  have written : step.pathText = step.combinator.pathStep tag ++
      String.join (([] : List (String × (NodeId → Bool))).map fun test => "[" ++ test.1 ++ "]") := by
    simp [pathText, compound, pseudos]
  rw [written]
  refine step.combinator.reaches_pathStep (.inr named) (by simp) reaches fun id => ?_
  have met : step.isMet document id = document.hasTag id tag := by
    unfold isMet Document.hasTag
    cases document.element? id <;>
      simp [compound, pseudos, Compound.holds, Compound.idHolds, Compound.filtersHold]
  rw [mem_follow linked (fun _ => by rw [compound]) (by simp [ExchangesFirst, pseudos])]
  simp only [met, List.all_nil, and_true]

/-- A group selects an element by a trail through its steps. -/
def Selects (document : Document) (scope : NodeId) (group : Group) (id : NodeId) : Prop :=
  group.isMalformed = false ∧ Trail (Step.Leads document) group.steps scope id

theorem mem_selectAll_iff_selects (linked : document.Linked) {group : Group} :
    id ∈ group.selectAll document scope ↔ group.Selects document scope id := by
  rw [selectAll_eq_foldl]
  unfold Selects
  cases group.isMalformed with
  | true => simp
  | false => simp [mem_foldl_follow_iff_trail linked]

end Selecting

end Group

namespace Engine

open ElementQuery.Group

variable {document : Document} {scope id : NodeId} {query : String} {group : Group}
  {nodes : List NodeId} {matching : NodeId → Prop}

/-- An element matches a query when one of the groups that are read selects it. -/
def Matches (document : Document) (scope : NodeId) (query : String) (id : NodeId) : Prop :=
  ∃ group ∈ (parse query).value, group.Selects document scope id

/-- One of the matches is found, unless there is none. -/
def IsMatch (matching : NodeId → Prop) : Option NodeId → Prop
  | none => ∀ id, ¬ matching id
  | some id => matching id

/-- The match that comes before all others in document order is found, unless there is none. -/
def IsFirstMatch (document : Document) (matching : NodeId → Prop) : Option NodeId → Prop
  | none => ∀ id, ¬ matching id
  | some id => matching id ∧ ∀ other, matching other →
      other = id ∨ document.compareOrder id other = .lt

theorem isMatch_head? (members : ∀ id, id ∈ nodes ↔ matching id) : IsMatch matching nodes.head? := by
  cases nodes with
  | nil => exact fun id held => List.not_mem_nil ((members id).2 held)
  | cons first rest => exact (members first).1 List.mem_cons_self

theorem isFirstMatch_head? (linked : document.Linked) (ordered : nodes.Pairwise document.Before)
    (members : ∀ id, id ∈ nodes ↔ matching id) : IsFirstMatch document matching nodes.head? := by
  cases nodes with
  | nil => exact fun id held => List.not_mem_nil ((members id).2 held)
  | cons first rest =>
      refine ⟨(members first).1 List.mem_cons_self, fun other held => ?_⟩
      rcases List.mem_cons.1 ((members other).2 held) with same | later
      · exact .inl same
      · have before := (List.pairwise_cons.1 ordered).1 other later
        exact .inr (linked.compareOrder_of_before before).1

/-- For a group of tag names the evaluator finds, in document order, what the group selects. -/
theorem askPath_tagOnly (linked : document.Linked) (inside : isScope document scope = true)
    (tagOnly : ∀ step ∈ group.steps, step.TagOnly) :
    (askPath .standard document scope group).value.Pairwise document.Before ∧
      ∀ id, id ∈ (askPath .standard document scope group).value ↔
        group.Selects document scope id := by
  unfold askPath pathText? Selects
  cases group.isMalformed with
  | true => exact ⟨.nil, fun id => by simp⟩
  | false =>
      have reaches := reaches_foldl_follow group.steps
        (fun step member {_ _} reached => (tagOnly step member).reaches linked reached)
        (@Path.Reaches.start document scope)
      obtain ⟨nodes, selected, same⟩ :=
        reaches.select_eq linked (node?_isSome_of_isScope inside)
      have found : PathEvaluator.standard.select document
          ("." ++ String.join (group.steps.map Step.pathText)) scope = .ok nodes := selected
      simp only [Bool.false_eq_true, if_false, Served.bind_value, found, orWarn, Served.pure_value,
        true_and]
      refine ⟨linked.pairwise_before_of_sublist (Path.select_sublist linked selected), fun id => ?_⟩
      rw [same, mem_foldl_follow_iff_trail linked]
      simp

/-- For every tag path the evaluator finds the first match in document order and walking finds a match. The
two are the same when the path has no sign of children, and also when no step to children starts from an
element and from another one below it. -/
theorem firsts_of_tagPath (linked : document.Linked) (inside : isScope document scope = true)
    (plain : ∀ c ∈ query.toList, isTagPathChar c = true) :
    ∃ evaluated walked, (path .standard).selectFirst document scope query = .ok evaluated ∧
      walker.selectFirst document scope query = .ok walked ∧
      IsFirstMatch document (Matches document scope query) evaluated.value ∧
      IsMatch (Matches document scope query) walked.value ∧
      (('>' ∉ query.toList ∨ ∀ group ∈ (parse query).value, Flat document scope group.steps) →
        walked.value = evaluated.value) := by
  refine ⟨_, _, if_pos inside, if_pos inside, ?_⟩
  unfold Matches
  simp only [searchFirst, Served.bind_value, Served.ofWarned_value, Served.pure_value, askFirst_value]
  rcases parse_tagPath plain with none | ⟨group, one, read⟩
  · simp only [none]
    exact ⟨fun id => by simp, fun id => by simp, fun _ => rfl⟩
  · obtain ⟨ordered, evaluated⟩ := askPath_tagOnly linked inside fun step member => (read step member).1
    have walked : ∀ id, id ∈ group.selectAll document scope ↔ group.Selects document scope id :=
      fun id => mem_selectAll_iff_selects linked
    simp only [one, askAll, Served.bind_value, Served.pure_value, List.append_nil,
      List.findSome?_singleton, selectFirst_eq_head?, List.mem_singleton, exists_eq_left, forall_eq]
    refine ⟨isFirstMatch_head? linked ordered evaluated, isMatch_head? walked, fun sameOrder => ?_⟩
    have flat : Flat document scope group.steps := by
      rcases sameOrder with unsigned | flat
      · exact flat_of_ne_child fun step member way => unsigned ((read step member).2 way)
      · exact flat
    refine head?_congr_of_pairwise linked.not_before_of_before ?_ ordered fun id =>
      (walked id).trans (evaluated id).symm
    rw [selectAll_eq_foldl]
    split
    · exact .nil
    · exact pairwise_foldl_follow linked (fun step member => (read step member).1.downwards) flat

/-- On every document that is loaded from markup and for every tag path, the evaluator finds below the document
node the first match in document order. Walking finds a match as well, and it is the same one when the path has
no sign of children or no step to children starts from an element and from another one below it. -/
theorem selectFirst_tagPath (markup query : String)
    (plain : ∀ c ∈ query.toList, isTagPathChar c = true) :
    ∃ evaluating walking evaluated walked, onBackend .path Host.full = .ok evaluating ∧
      onBackend .walker Host.full = .ok walking ∧
      evaluating.selectFirst (Markup.load markup).value Document.root query = .ok evaluated ∧
      walking.selectFirst (Markup.load markup).value Document.root query = .ok walked ∧
      IsFirstMatch (Markup.load markup).value
        (Matches (Markup.load markup).value Document.root query) evaluated.value ∧
      IsMatch (Matches (Markup.load markup).value Document.root query) walked.value ∧
      (('>' ∉ query.toList ∨ ∀ group ∈ (parse query).value,
          Flat (Markup.load markup).value Document.root group.steps) →
        walked.value = evaluated.value) := by
  have reachable := (Markup.load_shows markup).1
  have inside : isScope (Markup.load markup).value Document.root = true := by
    rw [isScope, reachable.registered.rootContent]
  obtain ⟨evaluated, walked, found, searched, results⟩ :=
    firsts_of_tagPath reachable.linked inside plain
  exact ⟨.path .standard, .walker, evaluated, walked, rfl, rfl, found, searched, results⟩

/-- The lists of a page are not nested, so that both engines find the first item of the first list. -/
theorem selectFirst_tagPath_of_lists : ∃ evaluated walked,
    (path .standard).selectFirst (Markup.load "<p></p><ul><li></ul><ul><li></ul>").value
      Document.root " ul>li " = .ok evaluated ∧
    walker.selectFirst (Markup.load "<p></p><ul><li></ul><ul><li></ul>").value
      Document.root " ul>li " = .ok walked ∧
    evaluated.value = some 3 ∧ walked.value = some 3 := by
  let document := (Markup.load "<p></p><ul><li></ul><ul><li></ul>").value
  let lists : Step := ⟨.descendant, { tag := "ul" }, []⟩
  let items : Step := ⟨.child, { tag := "li" }, []⟩
  have linked : document.Linked := (Markup.load_shows _).1.linked
  have read : (parse " ul>li ").value = [⟨"ul > li", [lists, items], none⟩] := by decide +kernel
  have found : [lists].foldl (Step.follow document) [Document.root] = [2, 4] := by decide +kernel
  have apart : ∀ first ∈ [2, 4], ∀ second ∈ [2, 4], first ∉ document.ancestors second := by
    decide +kernel
  have flat : Flat document Document.root [lists, items] := by
    intro front step back split way first second one two
    obtain rfl : front = [lists] := by
      rcases front with _ | ⟨head, _ | ⟨next, front⟩⟩
      · obtain rfl : lists = step := (List.cons.inj split).1
        cases way
      · rw [(List.cons.inj split).1]
      · simp at split
    have member : ∀ {id}, Trail (Step.Leads document) [lists] Document.root id → id ∈ [2, 4] :=
      fun trail => found ▸ (mem_foldl_follow_iff_trail linked).2 ⟨_, List.mem_cons_self, trail⟩
    exact apart first (member one) second (member two)
  obtain ⟨evaluating, walking, evaluated, walked, ⟨⟩, ⟨⟩, first, second, -, -, same⟩ :=
    selectFirst_tagPath "<p></p><ul><li></ul><ul><li></ul>" " ul>li " (List.all_eq_true.1 (by decide))
  have same := same (.inr (by simpa only [read, List.forall_mem_singleton] using flat))
  have third : ((path .standard).selectFirst document Document.root " ul>li ").map Served.value =
      .ok (some 3) := by decide +kernel
  rw [first] at third
  have value : evaluated.value = some 3 := Except.ok.inj third
  exact ⟨evaluated, walked, first, second, value, same.trans value⟩

/-- Where an element has a child of its own and a child of one below it, walking finds its own child first,
although the other one comes before it in document order and is found by the evaluator. -/
theorem selectFirst_tagPath_of_nested :
    (∀ c ∈ "a > b".toList, isTagPathChar c = true) ∧
    (onBackend .path Host.full >>= fun engine =>
      (engine.selectFirst (Markup.load "<a><a><b></b></a><b></b></a>").value Document.root
        "a > b").map Served.value) = .ok (some 3) ∧
    (onBackend .walker Host.full >>= fun engine =>
      (engine.selectFirst (Markup.load "<a><a><b></b></a><b></b></a>").value Document.root
        "a > b").map Served.value) = .ok (some 4) ∧
    (Markup.load "<a><a><b></b></a><b></b></a>").value.compareOrder 3 4 = .lt := by
  refine ⟨List.all_eq_true.1 (by decide), ?_, ?_, ?_⟩ <;> decide +kernel

end Engine

end ElementQuery

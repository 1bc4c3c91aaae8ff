/-
This file follows the lenient reader through the texts of the common language, from names and items to whole
queries.
-/

import ElementQuery.Proofs.Common.Words

namespace ElementQuery.Common

open ElementQuery.Group

section Names

variable {rest : List Char}

/-- A name is read up to where another character stands. -/
theorem leadingName?_name {name : List Char} (valid : isName name = true)
    (apart : ∀ c ∈ rest.head?, Group.isNameChar c = false) :
    leadingName? (name ++ rest) = some (String.ofList name, rest) := by
  obtain ⟨front, behind⟩ := Text.span_run
    (fun c member => (isNameChar_of_isNameLetter (isNameLetter_of_isName valid c member)).2) apart
  rw [leadingName?, front, behind, if_neg (by simpa using ne_nil_of_isName valid)]

theorem unnamed_of_stops (stops : Stops rest) : ∀ c ∈ rest.head?, Group.isNameChar c = false :=
  fun c first => (isNameChar_of_stop (stops c first)).2.1

end Names

section Filters

theorem unquote_text (value : Quoted) : unquote value.text = value.letters := by
  have own : stripped? value.quote value.text = some value.letters := by
    simp [Quoted.text, stripped?]
  have other : ∀ quote, quote ≠ value.quote → stripped? quote value.text = none := by
    intro quote different
    simp [Quoted.text, stripped?, different.symm]
  rcases value.quote_eq with same | same
  · rw [unquote, ← same, own]
    rfl
  · rw [unquote, other '\x22' (by rw [same]; decide), ← same, own]
    rfl

/-- The operator is the last sign before the equals sign. -/
theorem nameAndOperator_heading (name : Name) (operator : Group.Operator) :
    nameAndOperator (Text.trim (name.text ++ operator.sign)) = (name.text, operator) := by
  have solid := solid_of_isName name.valid
  have signed : ∀ {sign : Char} {other : Group.Operator}, Text.isBlank sign = false →
      Operator.ofChar? sign = some other →
      nameAndOperator (Text.trim (name.text ++ [sign])) = (name.text, other) := by
    intro sign other unblank known
    rw [(solid.append (.single unblank)).trim_eq, nameAndOperator]
    simp [known, solid.trim_eq]
  cases operator with
  | exact =>
      rw [Group.Operator.sign, List.append_nil, solid.trim_eq]
      have letter := isNameLetter_of_isName name.valid _ (List.getLast_mem solid.ne_nil)
      have apart : ∀ {sign : Char}, isNameLetter sign = false →
          name.text.getLast solid.ne_nil ≠ sign := ne_of_isNameLetter letter
      have unsigned : Operator.ofChar? (name.text.getLast solid.ne_nil) = none := by
        unfold Operator.ofChar?
        split
        case h_6 => rfl
        all_goals exact absurd ‹_› (apart (by decide))
      rw [nameAndOperator, List.getLast?_eq_some_getLast solid.ne_nil, Option.bind_some, unsigned]
  | beginning => exact signed (by decide) rfl
  | ending => exact signed (by decide) rfl
  | substring => exact signed (by decide) rfl

/-- What stands between the brackets is read as a filter. -/
theorem filter_comparison (name : Name) (operator : Group.Operator) (value : Quoted) :
    (AttributeFilter.read (comparison name operator value)).value =
      some ⟨Text.lower name.string, some (operator, value.string)⟩ := by
  have free : '=' ∉ name.text ++ operator.sign := by
    intro member
    rcases List.mem_append.1 member with letter | sign
    · exact absurd (isNameLetter_of_isName name.valid '=' letter) (by decide)
    · cases operator <;> simp [Group.Operator.sign] at sign
  have cut : Text.cutAt? ['='] (comparison name operator value) =
      some (name.text ++ operator.sign, value.text) := Text.cutAt?_mark free
  rw [AttributeFilter.read, cut]
  dsimp only
  rw [nameAndOperator_heading]
  dsimp only
  rw [if_neg (by simpa using ne_nil_of_isName name.valid), value.solid.trim_eq, unquote_text]
  rfl

end Filters

section Items

variable {readNegated : List Char → Warned Group.Compound}

/-- A text is read as a fragment wherever the compound goes on or ends behind it. -/
def ReadsFragment (readNegated : List Char → Warned Group.Compound) (text : List Char)
    (fragment : Fragment) : Prop :=
  ∀ {rest : List Char}, Stops rest → ∃ read : Warned Fragment,
    fragment? readNegated (text ++ rest) = some (read, rest) ∧ read.value = fragment

theorem Test.readsFragment : ∀ test : Test, ReadsFragment readNegated test.text test.lenient
  | .hasClass name, rest, stops => by
      refine ⟨pure (.hasClass name.string), ?_, rfl⟩
      rw [text, List.cons_append, fragment?, leadingName?_name name.valid (unnamed_of_stops stops)]
      rfl
  | .attribute name operator value, rest, _ => by
      have cut := @inside?_of_passes '[' ']' _ rest
        (passes_comparison (by decide) (by decide) name operator value) (by decide) (by decide)
      rw [attribute_append, fragment?, cut]
      refine ⟨_, rfl, ?_⟩
      show ((AttributeFilter.read (comparison name operator value)).value.map
        Fragment.attribute).getD .nothing = _
      rw [filter_comparison]
      rfl

/-- Without an argument, a pseudo-class is known by its name. -/
theorem readsFragment_plain (pseudo : Plain) :
    ReadsFragment readNegated (':' :: pseudo.name.toList) (.pseudo pseudo.lenient) := by
  intro rest stops
  have named := leadingName?_name pseudo.isName_name (unnamed_of_stops stops)
  have bare : rest.head? ≠ some '(' := fun same => (isNameChar_of_stop (stops '(' same)).2.2 rfl
  have known : namedPseudoClass? readNegated (Text.lower pseudo.name) [] =
      some (pure pseudo.lenient) := by
    rcases pseudo with (_ | _) | (_ | _) | (_ | _) | _ | _ <;> rfl
  rw [String.ofList_toList] at named
  rw [List.cons_append, fragment?, pseudoFragment?, named, Option.bind_some]
  dsimp only
  rw [if_neg bare, PseudoClass.read, known]
  exact ⟨_, rfl, rfl⟩

/-- With an argument, a pseudo-class is what its name makes of the argument. -/
theorem readsFragment_argued {name : String} {argument : List Char} {pseudo : Warned PseudoClass}
    (valid : isName name.toList = true) (passes : Passes '(' ')' argument)
    (known : namedPseudoClass? readNegated (Text.lower name) argument = some pseudo) :
    ReadsFragment readNegated (argued name.toList argument) (.pseudo pseudo.value) := by
  intro rest _
  have named := @leadingName?_name ('(' :: (argument ++ ')' :: rest)) _ valid (by simp; decide)
  have cut := @inside?_of_passes '(' ')' _ rest passes (by decide) (by decide)
  rw [String.ofList_toList] at named
  rw [argued_append, fragment?, pseudoFragment?, named, Option.bind_some]
  dsimp only
  rw [if_pos List.head?_cons, cut, Option.map_some, PseudoClass.read, known]
  exact ⟨_, rfl, rfl⟩

end Items

section Steps

variable {A : Type} [Spelled A] {readNegated : List Char → Warned Group.Compound}

/-- The fragments of all items are added to a step. -/
theorem addFragments_items {items : List A} {word : List Char} {moves : Nat} {step : Step}
    (each : ∀ item ∈ items, ReadsFragment readNegated (Spelled.text item) (Spelled.lenient item))
    (enough : (items.map Spelled.text).flatten.length ≤ moves) :
    (addFragments readNegated word moves step (items.map Spelled.text).flatten).value =
      (items.map Spelled.lenient).foldl Step.add step := by
  induction items generalizing moves step with
  | nil => cases moves <;> rfl
  | cons item items inductionHypothesis =>
      obtain ⟨c, others, shape, -⟩ := Spelled.opens item
      obtain ⟨read, found, value⟩ := each item List.mem_cons_self (@stops_flatten A _ items)
      rw [List.map_cons, List.flatten_cons, List.length_append, shape, List.length_cons] at enough
      obtain ⟨fewer, rfl⟩ := Nat.exists_eq_add_one.2 (by omega : 0 < moves)
      have later := fun step => @inductionHypothesis fewer step
        (fun other member => each other (List.mem_cons_of_mem _ member)) (by omega)
      rw [List.map_cons, List.flatten_cons, addFragments, found]
      · dsimp only
        rw [Warned.bind_value, value, later]
        rfl
      · rw [shape]
        exact fun empty => List.cons_ne_nil _ _ empty

/-- A word is read as the step of its compound. -/
theorem readStepWithin_compound {combinator : Group.Combinator} {levels : Nat} (compound : Compound A)
    (each : ∀ item ∈ compound.items, ReadsFragment
      (readNegation (readStepWithin .descendant levels)) (Spelled.text item) (Spelled.lenient item)) :
    (readStepWithin combinator (levels + 1) compound.text).value = compound.step combinator := by
  obtain ⟨tag, items, nonempty⟩ := compound
  have apart := unnamed_of_stops (@stops_flatten A _ items)
  have shape : Compound.text ⟨tag, items, nonempty⟩ =
      (tag.toList.map Tag.text).flatten ++ (items.map Spelled.text).flatten := List.flatten_append
  rw [readStepWithin, shape]
  cases tag with
  | none =>
      obtain ⟨front, behind⟩ := @Text.span_run Group.isNameChar [] _ (by simp) apart
      simp only [Option.toList_none, List.map_nil, List.flatten_nil] at front behind ⊢
      rw [front, behind]
      exact addFragments_items each (by simp)
  | some tag =>
      cases tag with
      | star =>
          simp only [Option.toList_some, List.map_cons, List.map_nil, List.flatten_singleton, Tag.text,
            List.singleton_append]
          obtain ⟨front, behind⟩ := @Text.span_run Group.isNameChar []
            ('*' :: (items.map Spelled.text).flatten) (by simp) (by simp; decide)
          rw [List.nil_append] at front behind
          rw [front, behind, List.length_cons, addFragments]
          · exact addFragments_items each (Nat.le_refl _)
          · exact List.cons_ne_nil _ _
      | named name =>
          obtain ⟨front, behind⟩ := Text.span_run (fun c member =>
            (isNameChar_of_isNameLetter (isNameLetter_of_isName name.valid c member)).2) apart
          simp only [Option.toList_some, List.map_cons, List.map_nil, List.flatten_singleton, Tag.text]
          rw [front, behind, if_neg (by simpa using ne_nil_of_isName name.valid)]
          exact addFragments_items each (by simp)

/-- A compound of tests does not look like an id in brackets. -/
theorem bracketId?_compound (compound : Compound Test) : bracketId? compound.text = none := by
  have first : ∀ (c : Char) (others : List Char), c ≠ '[' → bracketId? (c :: others) = none := by
    intro c others different
    unfold bracketId?
    split
    · rename_i same
      exact absurd (List.cons.inj same).1 different
    · rfl
  have second : ∀ (c d : Char) (others : List Char), d ≠ '#' →
      bracketId? (c :: d :: others) = none := by
    intro c d others different
    unfold bracketId?
    split
    · rename_i same
      exact absurd (List.cons.inj (List.cons.inj same).2).1 different
    · rfl
  obtain ⟨tag, items, nonempty⟩ := compound
  cases tag with
  | some tag =>
      cases tag with
      | star => rfl
      | named name =>
          obtain ⟨c, others, shape, letter⟩ := exists_of_isName name.valid
          have known := first c (others ++ (items.map Spelled.text).flatten)
            (ne_of_isNameLetter (isNameLetter_of_isAlpha letter) (by decide))
          simpa [Compound.text, Compound.pieces, Tag.text, shape] using known
  | none =>
      cases items with
      | nil => simp at nonempty
      | cons test items =>
          rcases test with name | ⟨name, operator, value⟩
          · rfl
          · obtain ⟨c, others, shape, letter⟩ := exists_of_isName name.valid
            have known := second '[' c (others ++ (operator.sign ++ '=' :: value.text) ++
              ']' :: (items.map Spelled.text).flatten)
              (ne_of_isNameLetter (isNameLetter_of_isAlpha letter) (by decide))
            simpa [Compound.text, Compound.pieces, Spelled.text, Test.text, comparison, shape] using known

/-- What is negated is read as the compound of its step. -/
theorem readNegation_compound {levels : Nat} (compound : Compound Test) :
    (readNegation (readStepWithin .descendant (levels + 1)) compound.text).value =
      (compound.step .descendant).compound := by
  have step := @readStepWithin_compound Test _ .descendant levels compound
    fun test _ => test.readsFragment
  rw [readNegation, compound.solid.trim_eq, bracketId?_compound, Warned.bind_value, step]
  split <;> rfl

theorem Condition.readsFragment {levels : Nat} (condition : Condition) :
    ReadsFragment (readNegation (readStepWithin .descendant (levels + 1))) condition.text
      condition.lenient := by
  cases condition with
  | test inner => exact inner.readsFragment
  | plain pseudo => exact readsFragment_plain pseudo
  | position argument =>
      have read := @readsFragment_argued (readNegation (readStepWithin .descendant (levels + 1)))
        "nth-child" argument.letters _ (by decide) (passes_argument argument.progression?_eq) rfl
      rw [lenient, ← argument.read_value]
      exact @read
  | ofType argument =>
      have read := @readsFragment_argued (readNegation (readStepWithin .descendant (levels + 1)))
        "nth-of-type" argument.letters _ (by decide) (passes_argument argument.read) rfl
      exact @read
  | negation compound =>
      have read := @readsFragment_argued (readNegation (readStepWithin .descendant (levels + 1)))
        "not" compound.text _ (by decide) compound.passes rfl
      rw [lenient, ← @readNegation_compound levels]
      exact @read

theorem readStep_compound (combinator : Group.Combinator) (compound : Compound Condition) :
    (readStep combinator compound.text).value = compound.step combinator := by
  obtain ⟨c, others, shape, -⟩ := compound.solid.front
  rw [readStep]
  apply readStepWithin_compound
  intro condition _
  rw [shape, List.length_cons]
  exact condition.readsFragment

end Steps

section Queries

/-- The text of a compound is no sign of a combinator. -/
theorem ofWord?_compound (compound : Compound Condition) :
    Combinator.ofWord? compound.text = none := by
  obtain ⟨c, others, shape, opens⟩ := compound.opens
  rw [shape]
  cases others with
  | cons d others => rfl
  | nil =>
      have apart : ∀ {other : Char}, opensCompound other = false → c ≠ other :=
        ne_of_opensCompound opens
      show Combinator.ofChar? c = none
      unfold Combinator.ofChar?
      split
      · exact absurd rfl (apart (by decide))
      · exact absurd rfl (apart (by decide))
      · exact absurd rfl (apart (by decide))
      · rfl

theorem readWords_compound (source : String) (pending : Option Group.Combinator)
    (compound : Compound Condition) (words : List (List Char)) :
    (readWords source pending (compound.text :: words)).value =
      (compound.step (pending.getD .descendant) :: (readWords source none words).value.1,
        (readWords source none words).value.2) := by
  rw [readWords, ofWord?_compound, Warned.bind_value, readStep_compound]
  rfl

/-- A combinator waits for the compound behind its sign. -/
theorem readWords_tail (source : String) (tail : List (Joint × Compound Condition)) :
    (readWords source none (Query.tailWords tail)).value =
      (tail.map fun part => part.2.step part.1.combinator.lenient, none) := by
  induction tail with
  | nil => rfl
  | cons part tail inductionHypothesis =>
      obtain ⟨⟨combinator, before, after, blank, apart⟩, compound⟩ := part
      have later := fun pending =>
        readWords_compound source pending compound (Query.tailWords tail)
      simp only [inductionHypothesis] at later
      cases combinator with
      | descendant => exact later none
      | child => exact later (some .child)
      | nextSibling => exact later (some .adjacent)
      | laterSibling => exact later (some .general)

/-- A text without commas is not cut at commas. -/
theorem splitAtCommas_eq {nesting : Nesting} {text : List Char} (single : ',' ∉ text) :
    splitAtCommas nesting text = [text] := by
  induction text generalizing nesting with
  | nil => rfl
  | cons c text inductionHypothesis =>
      have different : c ≠ ',' := fun same => single (same ▸ List.mem_cons_self)
      rw [splitAtCommas, if_neg (by simp [different]),
        inductionHypothesis fun member => single (List.mem_cons_of_mem _ member)]
      rfl

theorem normalized_ne_empty {word : List Char} {words : List (List Char)} (nonempty : word ≠ []) :
    normalized (word :: words) ≠ "" := by
  intro empty
  have letters := congrArg String.toList empty
  rw [normalized, String.toList_intercalate] at letters
  cases words with
  | nil => exact nonempty (by simpa using letters)
  | cons other words => simp at letters

/-- The lenient reader reads every query of the common language that has no comma. -/
theorem parse_value_query (query : Query) (single : ',' ∉ query.text) :
    ∃ source, (Group.parse (String.ofList query.text)).value = [⟨source, query.steps, none⟩] := by
  have words := groupWords_query query
  have source := @normalized_ne_empty _ (Query.tailWords query.tail) query.head.solid.ne_nil
  have steps := fun source => readWords_compound source none query.head (Query.tailWords query.tail)
  simp only [readWords_tail] at steps
  refine ⟨normalized (groupWords query.text), ?_⟩
  rw [Group.parse, String.toList_ofList, query.solid.trim_eq, splitAtCommas_eq single, readGroups,
    words, if_neg (by simpa using source), Warned.bind_value, Warned.bind_value, ofWords,
    Warned.bind_value, steps]
  rfl

end Queries

end ElementQuery.Common

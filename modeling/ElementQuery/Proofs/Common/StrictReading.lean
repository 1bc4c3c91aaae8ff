/-
This file follows the strict reader through the texts of the common language, from names and items to
whole queries.
-/

import ElementQuery.Proofs.Common.Counting
import ElementQuery.Selector.Matching

namespace ElementQuery.Common

open Selector

section Names

variable {rest : List Char}

/-- Blanks before another character are skipped. -/
theorem skipBlanks_append {blanks : List Char} {c : Char}
    (blank : ∀ d ∈ blanks, Text.isAsciiBlank d = true) (solid : Text.isAsciiBlank c = false) :
    skipBlanks (blanks ++ c :: rest) = c :: rest :=
  (Text.span_run blank (by simpa using solid)).2

theorem skipBlanks_cons {c : Char} (solid : Text.isAsciiBlank c = false) :
    skipBlanks (c :: rest) = c :: rest :=
  List.dropWhile_cons_of_neg (by simp [solid])

/-- A name is read up to where another character stands. -/
theorem readIdentifier_name {name : List Char} (valid : isName name = true)
    (apart : ∀ c ∈ rest.head?, Selector.isNameChar c = false) :
    readIdentifier (name ++ rest) = .ok (String.ofList name, rest) := by
  obtain ⟨front, behind⟩ := Text.span_run
    (fun c member => (isNameChar_of_isNameLetter (isNameLetter_of_isName valid c member)).1) apart
  obtain ⟨c, others, rfl, letter⟩ := exists_of_isName valid
  have opens : isNameStart c = true := by simp [isNameStart, letter]
  rw [readIdentifier, if_pos (by simpa using opens), readName, front, behind]
  rfl

theorem apart_of_stops (stops : Stops rest) : ∀ c ∈ rest.head?, Selector.isNameChar c = false :=
  fun c first => (isNameChar_of_stop (stops c first)).1

end Names

section Items

variable {rest : List Char}

/-- A quoted value is read up to its second quote. -/
theorem readValue_quoted (value : Quoted) :
    readValue (value.text ++ rest) = .ok (value.string, rest) := by
  have others : ∀ c ∈ value.letters, (c != value.quote) = true := by
    intro c member
    rw [bne_iff_ne]
    rintro rfl
    exact value.free member
  obtain ⟨inside, behind⟩ := @Text.span_run (· != value.quote) _ (value.quote :: rest) others (by simp)
  have quoted : readValue (value.quote :: (value.letters ++ value.quote :: rest)) =
      readQuoted value.quote (value.letters ++ value.quote :: rest) := by
    rcases value.quote_eq with same | same <;> rw [same] <;> rfl
  rw [value.text_append, quoted, readQuoted, inside, behind]
  rfl

theorem readComparison_quoted (test : String → AttributeTest) (value : Quoted) :
    readComparison test ('=' :: (value.text ++ ']' :: rest)) = .ok (test value.string, rest) := by
  have solid : skipBlanks (value.text ++ ']' :: rest) = value.text ++ ']' :: rest := by
    apply skipBlanks_cons
    rcases value.quote_eq with same | same <;> rw [same] <;> rfl
  have equals : expect '=' ('=' :: (value.text ++ ']' :: rest)) = .ok (value.text ++ ']' :: rest) :=
    rfl
  have opened : readValue (skipBlanks (value.text ++ ']' :: rest)) = .ok (value.string, ']' :: rest) := by
    rw [solid, readValue_quoted]
  have closed : expect ']' (skipBlanks (']' :: rest)) = .ok rest := rfl
  simp only [readComparison, equals, opened, closed, bind, Except.bind]
  rfl

/-- What stands between the brackets is read as the test of its operator. -/
theorem readAttribute_comparison (name : Name) (operator : Group.Operator) (value : Quoted) :
    readAttribute (comparison name operator value ++ ']' :: rest) =
      .ok (operator.strict (Text.lower name.string) value.string, rest) := by
  have shape : comparison name operator value ++ ']' :: rest =
      name.text ++ (operator.sign ++ '=' :: (value.text ++ ']' :: rest)) := by simp [comparison]
  have apart : ∀ c ∈ (operator.sign ++ '=' :: (value.text ++ ']' :: rest)).head?,
      Selector.isNameChar c = false := by
    cases operator <;> simp [Group.Operator.sign] <;> decide
  have unblank : skipBlanks (name.text ++ (operator.sign ++ '=' :: (value.text ++ ']' :: rest))) =
      name.text ++ (operator.sign ++ '=' :: (value.text ++ ']' :: rest)) := by
    obtain ⟨c, others, begins, solid⟩ := (solid_of_isName name.valid).front
    rw [begins]
    exact skipBlanks_cons (Text.isAsciiBlank_of_isBlank solid)
  have compared := fun test => @readComparison_quoted rest test value
  simp only [readAttribute, shape, unblank, readIdentifier_name name.valid apart, bind, Except.bind]
  cases operator with
  | exact => exact compared (.equals (Text.lower name.string))
  | beginning => exact compared (.beginsWith (Text.lower name.string))
  | ending => exact compared (.endsWith (Text.lower name.string))
  | substring => exact compared (.contains (Text.lower name.string))

/-- The reader of what is negated within a number of steps. -/
def readNegated (steps : Nat) : List Char → Except Fault (List Selector.Compound × List Char) :=
  readCompounds (readCompoundWith (readSimples steps)) steps

/-- A text is read as a simple selector wherever the compound goes on or ends behind it. -/
def ReadsSimple (text : List Char) (simple : Simple) : Prop :=
  ∀ {steps : Nat} {rest : List Char}, text.length ≤ steps + 1 → Stops rest →
    readSimple? (readNegated steps) (text ++ rest) = .ok (some (simple, rest))

theorem Test.readsSimple : ∀ test : Test, ReadsSimple test.text test.strict
  | .hasClass name, steps, rest, _, stops => by
      have named := readIdentifier_name name.valid (apart_of_stops stops)
      simp only [text, List.cons_append, readSimple?, named, bind, Except.bind]
      rfl
  | .attribute name operator value, steps, rest, _, _ => by
      have read := @readAttribute_comparison rest name operator value
      simp only [attribute_append, readSimple?, read, bind, Except.bind]
      rfl

end Items

section Compounds

variable {A : Type} [Spelled A] {steps : Nat} {rest : List Char}

theorem readSimple?_of_ends (ends : Ends rest) : readSimple? (readNegated steps) rest = .ok none := by
  cases rest with
  | nil => rfl
  | cons c rest =>
      have closes := ends c rfl
      simp only [endsCompound, Text.isAsciiBlank, Bool.or_eq_true, beq_iff_eq] at closes
      rcases closes with (((rfl | rfl) | rfl) | rfl) | (((rfl | rfl) | rfl) | rfl) | rfl <;> rfl

/-- Items are read one after the other. -/
theorem readSimples_items {items : List A}
    (each : ∀ item ∈ items, ReadsSimple (Spelled.text item) (Spelled.strict item))
    (enough : (items.map Spelled.text).flatten.length ≤ steps) (ends : Ends rest) :
    readSimples steps ((items.map Spelled.text).flatten ++ rest) =
      .ok (items.map Spelled.strict, rest) := by
  induction items generalizing steps with
  | nil =>
      cases steps with
      | zero => rfl
      | succ steps =>
          have none := @readSimple?_of_ends steps rest ends
          unfold readNegated at none
          simp only [List.map_nil, List.flatten_nil, List.nil_append, readSimples, none, bind,
            Except.bind]
          rfl
  | cons item items inductionHypothesis =>
      obtain ⟨c, others, shape, -⟩ := Spelled.opens item
      have size : (Spelled.text item).length = others.length + 1 := by simp [shape]
      rw [List.map_cons, List.flatten_cons, List.length_append] at enough
      obtain ⟨fewer, rfl⟩ := Nat.exists_eq_add_one.2 (by omega : 0 < steps)
      have first := each item List.mem_cons_self (by omega : _ ≤ fewer + 1)
        (@stops_items A _ rest items ends)
      have later := inductionHypothesis (fun other member => each other (List.mem_cons_of_mem _ member))
        (by omega : _ ≤ fewer)
      unfold readNegated at first
      simp only [List.map_cons, List.flatten_cons, List.append_assoc, readSimples, first, later, bind,
        Except.bind]
      rfl

/-- A tag is read up to the first item. -/
theorem readTag_tag {tag : Option Tag} (stops : Stops rest) :
    readTag ((tag.toList.map Tag.text).flatten ++ rest) = .ok (tag.toList.map Tag.strict, rest) := by
  cases tag with
  | none =>
      cases rest with
      | nil => rfl
      | cons c rest =>
          have stop := stops c rfl
          have plain : isNameStart c = false := by
            have outside := (isNameChar_of_stop stop).1
            simp only [Selector.isNameChar, Bool.or_eq_false_iff] at outside
            exact outside.1
          have starless : c ≠ '*' := by
            rintro rfl
            exact absurd stop (by decide)
          simp only [Option.toList_none, List.map_nil, List.flatten_nil, List.nil_append]
          rw [readTag]
          · rw [plain]
            rfl
          · exact starless
  | some tag =>
      cases tag with
      | star => rfl
      | named name =>
          have read := readIdentifier_name name.valid (apart_of_stops stops)
          obtain ⟨c, others, shape, letter⟩ := exists_of_isName name.valid
          have opens : isNameStart c = true := by simp [isNameStart, letter]
          have starless : c ≠ '*' := ne_of_isNameLetter (isNameLetter_of_isAlpha letter) (by decide)
          simp only [Option.toList_some, List.map_cons, List.map_nil, List.flatten_singleton, Tag.text]
          rw [shape, List.cons_append] at read ⊢
          rw [readTag]
          · rw [opens, if_pos rfl, read, ← shape]
            rfl
          · exact starless

/-- A compound is read up to its end. -/
theorem readCompoundWith_compound (compound : Compound A)
    (each : ∀ item ∈ compound.items, ReadsSimple (Spelled.text item) (Spelled.strict item))
    (enough : compound.text.length ≤ steps) (ends : Ends rest) :
    readCompoundWith (readSimples steps) (compound.text ++ rest) = .ok (compound.strict, rest) := by
  have shape : compound.text = (compound.tag.toList.map Tag.text).flatten ++
      (compound.items.map Spelled.text).flatten := List.flatten_append
  rw [shape, List.length_append] at enough
  have front := @readTag_tag _ compound.tag (@stops_items A _ rest compound.items ends)
  have behind := readSimples_items each (by omega : _ ≤ steps) ends
  have filled : (compound.tag.toList.map Tag.strict ++
      compound.items.map Spelled.strict).isEmpty = false := by
    rw [List.isEmpty_eq_false_iff]
    intro empty
    obtain ⟨tagless, itemless⟩ := List.append_eq_nil_iff.1 empty
    exact compound.pieces_ne_nil (by
      rw [Compound.pieces, List.map_eq_nil_iff.1 tagless, List.map_eq_nil_iff.1 itemless]
      rfl)
  simp only [shape, List.append_assoc, readCompoundWith, front, behind, filled, bind, Except.bind]
  rfl

end Compounds

section Conditions

variable {steps : Nat} {rest : List Char}

/-- Before an accepted argument, blanks do not count. -/
theorem progression?_skipBlanks (letters : List Char) :
    progression? (skipBlanks letters) = progression? letters := by
  have kept : Progression.compact Text.isAsciiBlank (skipBlanks letters) =
      Progression.compact Text.isAsciiBlank letters := by
    induction letters with
    | nil => rfl
    | cons c letters inductionHypothesis =>
        cases blank : Text.isAsciiBlank c with
        | false => rw [skipBlanks_cons blank]
        | true =>
            rw [skipBlanks, List.dropWhile_cons_of_pos blank]
            refine inductionHypothesis.trans ?_
            simp [Progression.compact, blank]
  rw [progression?, progression?, kept]

/-- An accepted argument is read up to the parenthesis. -/
theorem readProgression_argument {letters : List Char} {progression : Progression}
    (read : progression? letters = some progression) :
    readProgression (skipBlanks (letters ++ ')' :: rest)) = .ok (progression, ')' :: rest) := by
  have inside : ∀ c ∈ skipBlanks letters, (c != ')') = true := by
    intro c member
    rw [bne_iff_ne]
    rintro rfl
    have known := letters_of_progression? read ')' ((List.dropWhile_sublist _).subset member)
    exact absurd known (by decide)
  have moved : skipBlanks (letters ++ ')' :: rest) = skipBlanks letters ++ ')' :: rest := by
    rw [skipBlanks, skipBlanks, List.dropWhile_append]
    split
    · rename_i empty
      rw [List.isEmpty_iff.1 empty]
      rfl
    · rfl
  obtain ⟨front, behind⟩ := @Text.span_run (· != ')') _ (')' :: rest) inside (by simp)
  rw [moved, readProgression, front, behind, progression?_skipBlanks, read]

/-- A name does not begin with a second colon. -/
theorem head?_ne_colon {name : List Char} (valid : isName name = true) (rest : List Char) :
    (name ++ rest).head? ≠ some ':' := by
  obtain ⟨c, others, rfl, letter⟩ := exists_of_isName valid
  intro same
  exact ne_of_isNameLetter (isNameLetter_of_isAlpha letter) (by decide) (Option.some.inj same)

/-- Between the parentheses behind a name stands what the name makes of it. -/
theorem readPseudo_argued {name : String} {argument : List Char} {simple : Simple}
    (valid : isName name.toList = true) (small : Text.lower name = name)
    (read : readArgument (readNegated steps) name (skipBlanks (argument ++ ')' :: rest)) =
      .ok (simple, ')' :: rest)) :
    readPseudo (readNegated steps) (name.toList ++ '(' :: (argument ++ ')' :: rest)) =
      .ok (simple, rest) := by
  have named := @readIdentifier_name ('(' :: (argument ++ ')' :: rest)) _ valid (by simp; decide)
  have single := head?_ne_colon valid ('(' :: (argument ++ ')' :: rest))
  have closed : expect ')' (skipBlanks (')' :: rest)) = .ok rest := rfl
  rw [String.ofList_toList] at named
  simp only [readPseudo, if_neg single, named, small, List.head?_cons, if_pos, List.drop_one,
    List.tail_cons, read, closed, bind, Except.bind]
  rfl

/-- A pseudo-class without an argument is known by its name. -/
theorem readPseudo_plain (pseudo : Plain) (stops : Stops rest) :
    readPseudo (readNegated steps) (pseudo.name.toList ++ rest) =
      .ok (.pseudo pseudo.strict, rest) := by
  have named := readIdentifier_name pseudo.isName_name (apart_of_stops stops)
  have single := head?_ne_colon pseudo.isName_name rest
  have bare : rest.head? ≠ some '(' := fun same => (isNameChar_of_stop (stops '(' same)).2.2 rfl
  have small : Text.lower pseudo.name = pseudo.name := by
    rcases pseudo with (_ | _) | (_ | _) | (_ | _) | _ | _ <;> decide
  have known : plainPseudo pseudo.name = .ok (.pseudo pseudo.strict) := by
    rcases pseudo with (_ | _) | (_ | _) | (_ | _) | _ | _ <;> rfl
  rw [String.ofList_toList] at named
  simp only [readPseudo, if_neg single, named, small, if_neg bare, known, bind, Except.bind]
  rfl

/-- A negation holds one compound of tests. -/
theorem readNegated_compound (compound : Compound Test) (enough : compound.text.length ≤ steps) :
    readNegated steps (skipBlanks (compound.text ++ ')' :: rest)) =
      .ok ([compound.strict], ')' :: rest) := by
  obtain ⟨c, others, shape, solid⟩ := compound.solid.front
  have unblank : skipBlanks (compound.text ++ ')' :: rest) = compound.text ++ ')' :: rest := by
    rw [shape]
    exact skipBlanks_cons (Text.isAsciiBlank_of_isBlank solid)
  have read := @readCompoundWith_compound Test _ steps (')' :: rest) compound
    (fun test _ => test.readsSimple) enough (by rintro d same; obtain rfl := Option.some.inj same; rfl)
  rw [shape, List.length_cons] at enough
  obtain ⟨fewer, rfl⟩ := Nat.exists_eq_add_one.2 (by omega : 0 < steps)
  rw [unblank, readNegated]
  simp only [readCompounds, read, bind, Except.bind]
  rfl

theorem readSimple?_pseudo {text : List Char} {simple : Simple}
    (read : readPseudo (readNegated steps) text = .ok (simple, rest)) :
    readSimple? (readNegated steps) (':' :: text) = .ok (some (simple, rest)) := by
  simp only [readSimple?, read, bind, Except.bind]
  rfl

theorem Condition.readsSimple : ∀ condition : Condition, ReadsSimple condition.text condition.strict
  | .test inner, _, _, enough, stops => inner.readsSimple enough stops
  | .plain pseudo, _, _, _, stops => readSimple?_pseudo (readPseudo_plain pseudo stops)
  | .position argument, steps, rest, _, _ => by
      rw [text, argued_append]
      apply readSimple?_pseudo
      apply readPseudo_argued (by decide) (by decide)
      have read := @readProgression_argument rest _ _ argument.progression?_eq
      simp only [readArgument, read, bind, Except.bind]
      rfl
  | .ofType argument, steps, rest, _, _ => by
      rw [text, argued_append]
      apply readSimple?_pseudo
      apply readPseudo_argued (by decide) (by decide)
      have read := @readProgression_argument rest _ _ argument.read
      simp only [readArgument, read, bind, Except.bind]
      rfl
  | .negation compound, steps, rest, enough, _ => by
      have size : compound.text.length ≤ steps := by
        simp only [text, argued, List.length_cons, List.length_append] at enough
        omega
      rw [text, argued_append]
      apply readSimple?_pseudo
      apply readPseudo_argued (by decide) (by decide)
      have read := @readNegated_compound steps rest compound size
      simp only [readArgument, read, if_pos, bind, Except.bind]
      rfl

theorem readCompound_compound (compound : Compound Condition) (ends : Ends rest) :
    readCompound (compound.text ++ rest) = .ok (compound.strict, rest) := by
  apply readCompoundWith_compound compound (fun condition _ => condition.readsSimple) ?_ ends
  rw [List.length_append]
  omega

end Conditions

section Queries

variable {rest : List Char}

theorem afterCombinator_append {blanks : List Char} {c : Char}
    (blank : ∀ d ∈ blanks, Text.isAsciiBlank d = true) (opens : opensCompound c = true) :
    afterCombinator (blanks ++ c :: rest) = .ok (c :: rest) := by
  have solid := Text.isAsciiBlank_of_isBlank (isBlank_of_opensCompound opens)
  have apart : c ≠ ',' := ne_of_opensCompound opens (by decide)
  rw [afterCombinator, skipBlanks_append blank solid]
  split
  · contradiction
  · rename_i same
    exact absurd (List.cons.inj same).1 apart
  · rfl

/-- A joint is read as its combinator. -/
theorem readCombinator?_joint (joint : Joint) {c : Char} (opens : opensCompound c = true) :
    readCombinator? (joint.text ++ c :: rest) = .ok (some (joint.combinator, c :: rest)) := by
  obtain ⟨combinator, before, after, blank, apart⟩ := joint
  rw [List.all_eq_true] at blank
  have front : ∀ d ∈ before, Text.isAsciiBlank d = true :=
    fun d member => blank d (List.mem_append_left after member)
  have behind := @afterCombinator_append rest after c
    (fun d member => blank d (List.mem_append_right before member)) opens
  simp only [Joint.text, List.append_assoc]
  cases combinator with
  | descendant =>
      have solid := Text.isAsciiBlank_of_isBlank (isBlank_of_opensCompound opens)
      have skipped : skipBlanks (before ++ (after ++ c :: rest)) = c :: rest := by
        rw [← List.append_assoc, skipBlanks_append blank solid]
      obtain ⟨d, others, rfl⟩ := List.exists_cons_of_ne_nil (apart rfl)
      have blankFirst : ((d :: others) ++ (after ++ c :: rest)).head?.any Text.isAsciiBlank = true :=
        front d List.mem_cons_self
      simp only [Combinator.sign, List.nil_append]
      have unsigned : ∀ {sign : Char} {tail : List Char}, opensCompound sign = false →
          c :: rest ≠ sign :: tail :=
        fun other same => ne_of_opensCompound opens other (List.cons.inj same).1
      rw [readCombinator?, skipped]
      split
      · contradiction
      · exact absurd ‹_› (unsigned (by decide))
      · exact absurd ‹_› (unsigned (by decide))
      · exact absurd ‹_› (unsigned (by decide))
      · exact absurd ‹_› (unsigned (by decide))
      · rw [if_pos blankFirst]
  | child | nextSibling | laterSibling =>
      simp only [Combinator.sign, List.cons_append, List.nil_append]
      rw [readCombinator?, skipBlanks_append front (by decide)]
      simp only [behind]
      rfl

/-- A joint begins with a character that ends a compound. -/
theorem Joint.ends (joint : Joint) : Ends (joint.text ++ rest) := by
  obtain ⟨combinator, before, after, blank, apart⟩ := joint
  rw [List.all_eq_true] at blank
  intro d first
  simp only [text, List.append_assoc] at first
  cases before with
  | cons c before =>
      obtain rfl := Option.some.inj first
      rw [endsCompound, blank c (by simp), Bool.or_true]
  | nil =>
      cases combinator with
      | descendant => exact absurd rfl (apart rfl)
      | child | nextSibling | laterSibling =>
          obtain rfl := Option.some.inj first
          rfl

/-- Behind a compound the query ends, or a joint stands there. -/
theorem ends_tailText : ∀ tail : List (Joint × Compound Condition), Ends (Query.tailText tail)
  | [] => by simp [Query.tailText, Ends]
  | part :: tail => by
      rw [Query.tailText, List.flatMap_cons, List.append_assoc]
      exact part.1.ends

/-- Every further compound becomes the subject. -/
theorem readChain_tail {steps : Nat} {complex : Selector.Complex} {tail : List (Joint × Compound Condition)}
    (enough : (Query.tailText tail).length ≤ steps) :
    readChain steps complex (Query.tailText tail) = .ok (tail.foldl (fun complex part =>
      complex.extend part.1.combinator part.2.strict) complex, []) := by
  induction tail generalizing steps complex with
  | nil => cases steps <;> rfl
  | cons part tail inductionHypothesis =>
      obtain ⟨joint, compound⟩ := part
      obtain ⟨c, others, shape, opens⟩ := compound.opens
      have whole : Query.tailText ((joint, compound) :: tail) =
          joint.text ++ (compound.text ++ Query.tailText tail) := by
        simp [Query.tailText]
      rw [whole, List.length_append, List.length_append, shape, List.length_cons] at enough
      obtain ⟨fewer, rfl⟩ := Nat.exists_eq_add_one.2 (by omega : 0 < steps)
      have joined : readCombinator? (joint.text ++ (compound.text ++ Query.tailText tail)) =
          .ok (some (joint.combinator, compound.text ++ Query.tailText tail)) := by
        rw [shape]
        exact readCombinator?_joint joint opens
      have read := readCompound_compound compound (ends_tailText tail)
      have later := @inductionHypothesis fewer (complex.extend joint.combinator compound.strict)
        (by omega)
      rw [whole]
      simp only [readChain, joined, read, later, List.foldl_cons, bind, Except.bind]

/-- The strict reader reads every query of the common language. -/
theorem parse_query (query : Query) :
    Selector.parse (String.ofList query.text) = .ok [query.strict] := by
  have solid := query.solid
  have filled : (Text.trim query.text).isEmpty = false := by
    rw [solid.trim_eq, List.isEmpty_eq_false_iff]
    exact solid.ne_nil
  obtain ⟨c, others, shape, first⟩ := solid.front
  have skipped : skipBlanks query.text = query.head.text ++ Query.tailText query.tail := by
    rw [shape, skipBlanks_cons (Text.isAsciiBlank_of_isBlank first), ← shape, Query.text]
  have head := readCompound_compound query.head (ends_tailText query.tail)
  have chain := @readChain_tail ((Query.tailText query.tail).length + 1)
    { subject := query.head.strict } query.tail (Nat.le_succ _)
  have read : readComplex query.text = .ok (query.strict, []) := by
    simp only [readComplex, skipped, head, chain, bind, Except.bind]
    rfl
  rw [Selector.parse, String.toList_ofList]
  simp only [filled, readComplexes, read, bind, Except.bind]
  rfl

end Queries

end ElementQuery.Common

/-
This file shows where the lenient reader cuts the texts of the common language: words between compounds and
signs, and what stands between brackets.
-/

import ElementQuery.Proofs.Common.Counting

namespace ElementQuery.Common

open ElementQuery.Group

/-- A plain character is neither a quote nor a bracket. -/
def isPlain (c : Char) : Bool :=
  !(Nesting.isQuote c || c == '[' || c == '(' || c == ']' || c == ')')

/-- The characters of a class without quotes and brackets are plain. -/
theorem isPlain_of_class {inClass : Char → Bool} {c : Char}
    (apart : ['\x22', '\x27', '[', '(', ']', ')'].any inClass = false)
    (member : inClass c = true) : isPlain c = true := by
  by_contra marked
  have listed : c ∈ ['\x22', '\x27', '[', '(', ']', ')'] := by
    rw [isPlain, Bool.not_eq_true, Bool.not_eq_false'] at marked
    simpa [Nesting.isQuote, or_assoc] using marked
  exact List.any_eq_false.1 apart c listed member

theorem isPlain_of_isNameLetter {c : Char} (letter : isNameLetter c = true) : isPlain c = true :=
  isPlain_of_class (by decide) letter

theorem isPlain_of_isBlank {c : Char} (blank : Text.isBlank c = true) : isPlain c = true :=
  isPlain_of_class (by decide) blank

theorem ofChar?_of_isNameLetter {c : Char} (letter : isNameLetter c = true) :
    Group.Combinator.ofChar? c = none := by
  unfold Group.Combinator.ofChar?
  split
  · cases letter
  · cases letter
  · cases letter
  · rfl

section Cutting

variable {opening closing : Char} {first second text rest : List Char}

/-- A text is passed when nothing in it closes the bracket around it. -/
def Passes (opening closing : Char) (text : List Char) : Prop :=
  ∀ rest, cutAtClose? opening closing {} (text ++ rest) =
    (cutAtClose? opening closing {} rest).map fun parts => (text ++ parts.1, parts.2)

theorem passes_nil : Passes opening closing [] := by
  intro rest
  simp

theorem Passes.append (front : Passes opening closing first)
    (behind : Passes opening closing second) : Passes opening closing (first ++ second) := by
  intro rest
  rw [List.append_assoc, front, behind, Option.map_map]
  simp [Function.comp_def]

/-- Characters that are neither quotes nor the brackets in question are passed. -/
theorem passes_run (apart : ∀ c ∈ text,
    Nesting.isQuote c = false ∧ c ≠ opening ∧ c ≠ closing) : Passes opening closing text := by
  intro rest
  induction text with
  | nil => simp
  | cons c text inductionHypothesis =>
      obtain ⟨unquoted, unopened, unclosed⟩ := apart c List.mem_cons_self
      have later := inductionHypothesis fun other member => apart other (List.mem_cons_of_mem _ member)
      rw [List.cons_append, cutAtClose?]
      simp only [unquoted, unopened, unclosed, if_false, Bool.false_eq_true, later, Option.map_map]
      rfl

theorem passes_sign {c : Char} (apart : Nesting.isQuote c = false ∧ c ≠ opening ∧ c ≠ closing) :
    Passes opening closing [c] :=
  passes_run (List.forall_mem_singleton.2 apart)

theorem passes_plain (opens : isPlain opening = false) (closes : isPlain closing = false)
    (plain : ∀ c ∈ text, isPlain c = true) : Passes opening closing text := by
  apply passes_run
  intro c member
  have known := plain c member
  have apart : ∀ {other : Char}, isPlain other = false → c ≠ other := by
    rintro other sign rfl
    rw [known] at sign
    cases sign
  simp only [isPlain, Bool.not_eq_true', Bool.or_eq_false_iff] at known
  exact ⟨known.1.1.1.1, apart opens, apart closes⟩

/-- Between two quotes no bracket counts. -/
theorem passes_quoted (value : Quoted) : Passes opening closing value.text := by
  have inside : ∀ (letters rest : List Char), value.quote ∉ letters →
      cutAtClose? opening closing ⟨0, some value.quote⟩ (letters ++ value.quote :: rest) =
        (cutAtClose? opening closing {} rest).map
          fun parts => (letters ++ value.quote :: parts.1, parts.2) := by
    intro letters rest free
    induction letters with
    | nil =>
        rw [List.nil_append, cutAtClose?]
        simp
    | cons c letters inductionHypothesis =>
        have different : c ≠ value.quote := fun same => free (same ▸ List.mem_cons_self)
        have later := inductionHypothesis fun member => free (List.mem_cons_of_mem _ member)
        rw [List.cons_append, cutAtClose?]
        simp only [different, if_false, later, Option.map_map]
        rfl
  intro rest
  rw [value.text_append, cutAtClose?]
  simp only [value.isQuote, if_true, inside value.letters rest value.free, Option.map_map]
  simp [Quoted.text, Function.comp_def]

/-- What is passed is all that stands between a bracket and the one that closes it. -/
theorem inside?_of_passes (passes : Passes opening closing text)
    (unquoted : Nesting.isQuote closing = false) (different : closing ≠ opening) :
    inside? opening closing (opening :: (text ++ closing :: rest)) = some (text, rest) := by
  have closes : cutAtClose? opening closing {} (closing :: rest) = some ([], rest) := by
    rw [cutAtClose?]
    simp [unquoted, different]
  rw [inside?, List.drop_one, List.tail_cons, passes, closes]
  simp

end Cutting

section Words

variable {depth : Nat} {first second text : List Char}

/-- A text is kept in one word at a depth of brackets. -/
def Keeps (depth : Nat) (text : List Char) : Prop :=
  ∀ current rest, wordsFrom { depth } current (text ++ rest) =
    wordsFrom { depth } (current ++ text) rest

theorem keeps_nil : Keeps depth [] := by
  intro current rest
  simp

theorem Keeps.append (front : Keeps depth first) (behind : Keeps depth second) :
    Keeps depth (first ++ second) := by
  intro current rest
  rw [List.append_assoc, front, behind, List.append_assoc]

/-- A character that neither breaks the word nor changes the nesting is added to the word. -/
theorem wordsFrom_cons {nesting : Nesting} {current rest : List Char} {c : Char}
    (stays : nesting.isTop = true → Text.isBlank c = false ∧ Combinator.ofChar? c = none) :
    wordsFrom nesting current (c :: rest) =
      wordsFrom (nesting.advance (nesting.depth != 0) c) (current ++ [c]) rest := by
  rw [wordsFrom]
  by_cases top : nesting.isTop = true
  · obtain ⟨solid, unsigned⟩ := stays top
    simp [solid, unsigned]
  · simp [top]

/-- Plain characters are kept, at the top as far as they are neither blanks nor signs. -/
theorem keeps_run (plain : ∀ c ∈ text, isPlain c = true)
    (stays : depth = 0 → ∀ c ∈ text, Text.isBlank c = false ∧ Combinator.ofChar? c = none) :
    Keeps depth text := by
  induction text with
  | nil => exact keeps_nil
  | cons c text inductionHypothesis =>
      have later := inductionHypothesis (fun d member => plain d (List.mem_cons_of_mem _ member))
        fun top d member => stays top d (List.mem_cons_of_mem _ member)
      have unchanged : Nesting.advance (depth != 0) { depth } c = { depth } := by
        have known := plain c List.mem_cons_self
        simp only [isPlain, Bool.not_eq_true', Bool.or_eq_false_iff, beq_eq_false_iff_ne] at known
        simp [Nesting.advance, known]
      intro current rest
      rw [List.cons_append, wordsFrom_cons, unchanged, later, List.append_assoc, List.singleton_append]
      intro top
      exact stays (by simpa [Nesting.isTop] using top) c List.mem_cons_self

theorem keeps_sign {c : Char} (plain : isPlain c = true)
    (stays : Text.isBlank c = false ∧ Combinator.ofChar? c = none) : Keeps depth [c] :=
  keeps_run (List.forall_mem_singleton.2 plain) fun _ => List.forall_mem_singleton.2 stays

/-- Inside of brackets, what stands between two quotes is kept. -/
theorem keeps_quoted (value : Quoted) : Keeps (depth + 1) value.text := by
  have inside : ∀ (letters current rest : List Char), value.quote ∉ letters →
      wordsFrom ⟨depth + 1, some value.quote⟩ current (letters ++ value.quote :: rest) =
        wordsFrom { depth := depth + 1 } (current ++ (letters ++ [value.quote])) rest := by
    intro letters current rest free
    induction letters generalizing current with
    | nil =>
        rw [List.nil_append, wordsFrom_cons (by simp [Nesting.isTop])]
        simp [Nesting.advance]
    | cons c letters inductionHypothesis =>
        have different : c ≠ value.quote := fun same => free (same ▸ List.mem_cons_self)
        have later := fun current =>
          inductionHypothesis current fun member => free (List.mem_cons_of_mem _ member)
        rw [List.cons_append, wordsFrom_cons (by simp [Nesting.isTop])]
        simp [Nesting.advance, different, later]
  intro current rest
  have opened : Nesting.advance (depth + 1 != 0) { depth := depth + 1 } value.quote =
      ⟨depth + 1, some value.quote⟩ := by
    simp [Nesting.advance, value.isQuote]
  rw [value.text_append, wordsFrom_cons (by simp [Nesting.isTop])]
  dsimp only
  rw [opened, inside _ _ _ value.free]
  simp [Quoted.text]

/-- Brackets around a text that is kept inside of them are kept with it. -/
theorem Keeps.bracketed {opening closing : Char} (opens : opening = '[' ∨ opening = '(')
    (closes : closing = ']' ∨ closing = ')') (inside : Keeps (depth + 1) text) :
    Keeps depth (opening :: (text ++ [closing])) := by
  have deeper : Nesting.advance (depth != 0) { depth } opening = { depth := depth + 1 } := by
    rcases opens with rfl | rfl <;> rfl
  have higher : Nesting.advance (depth + 1 != 0) { depth := depth + 1 } closing = { depth } := by
    rcases closes with rfl | rfl <;> rfl
  intro current rest
  rw [List.cons_append, wordsFrom_cons, deeper, List.append_assoc, inside, List.singleton_append,
    wordsFrom_cons (by simp [Nesting.isTop])]
  · dsimp only
    rw [higher]
    simp
  · intro _
    rcases opens with rfl | rfl <;> decide

end Words

section Texts

variable {depth : Nat} {opening closing : Char}

theorem plain_name {text : List Char} (valid : isName text = true) :
    ∀ c ∈ text, isPlain c = true :=
  fun c member => isPlain_of_isNameLetter (isNameLetter_of_isName valid c member)

/-- What stands before the value of an attribute test is plain. -/
theorem plain_heading (name : Name) (operator : Group.Operator) :
    ∀ c ∈ name.text ++ operator.sign ++ ['='], isPlain c = true := by
  intro c member
  rcases List.mem_append.1 member with front | equals
  · rcases List.mem_append.1 front with letter | sign
    · exact plain_name name.valid c letter
    · cases operator <;> simp only [Group.Operator.sign, List.mem_singleton, List.not_mem_nil] at sign
        <;> subst sign <;> decide
  · rw [List.mem_singleton.1 equals]
    decide

theorem comparison_eq (name : Name) (operator : Group.Operator) (value : Quoted) :
    comparison name operator value = (name.text ++ operator.sign ++ ['=']) ++ value.text := by
  simp [comparison]

theorem passes_comparison (opens : isPlain opening = false) (closes : isPlain closing = false)
    (name : Name) (operator : Group.Operator) (value : Quoted) :
    Passes opening closing (comparison name operator value) := by
  rw [comparison_eq]
  exact (passes_plain opens closes (plain_heading name operator)).append (passes_quoted value)

theorem keeps_comparison (name : Name) (operator : Group.Operator) (value : Quoted) :
    Keeps (depth + 1) (comparison name operator value) := by
  rw [comparison_eq]
  exact (keeps_run (plain_heading name operator) (by simp)).append (keeps_quoted value)

theorem keeps_name {text : List Char} (valid : isName text = true) : Keeps depth text := by
  have letters := isNameLetter_of_isName valid
  exact keeps_run (plain_name valid) fun _ c member =>
    ⟨isBlank_of_isNameLetter (letters c member), ofChar?_of_isNameLetter (letters c member)⟩

theorem passes_name {text : List Char} (valid : isName text = true) : Passes '(' ')' text :=
  passes_plain (by decide) (by decide) (plain_name valid)

theorem Tag.keeps : ∀ tag : Tag, Keeps depth tag.text
  | .star => keeps_sign (by decide) (by decide)
  | .named name => keeps_name name.valid

theorem Tag.passes : ∀ tag : Tag, Passes '(' ')' tag.text
  | .star => passes_sign (by decide)
  | .named name => passes_name name.valid

theorem Test.keeps (test : Test) : Keeps depth test.text := by
  rcases test with name | ⟨name, operator, value⟩
  · exact (keeps_sign (by decide) (by decide) : Keeps depth ['.']).append (keeps_name name.valid)
  · exact (keeps_comparison name operator value).bracketed (.inl rfl) (.inl rfl)

theorem Test.passes (test : Test) : Passes '(' ')' test.text := by
  rcases test with name | ⟨name, operator, value⟩
  · exact (passes_sign (by decide) : Passes '(' ')' ['.']).append (passes_name name.valid)
  · exact (passes_sign (by decide) : Passes '(' ')' ['[']).append
      ((passes_comparison (by decide) (by decide) name operator value).append
        (passes_sign (by decide)))

theorem Compound.keeps {A : Type} [Spelled A] (compound : Compound A)
    (each : ∀ item : A, Keeps depth (Spelled.text item)) : Keeps depth compound.text :=
  compound.text_of_pieces keeps_nil Keeps.append Tag.keeps each

theorem Compound.passes (compound : Compound Test) : Passes '(' ')' compound.text :=
  compound.text_of_pieces passes_nil Passes.append Tag.passes Test.passes

/-- An accepted argument is plain. -/
theorem plain_argument {letters : List Char} {progression : Progression}
    (read : Selector.progression? letters = some progression) : ∀ c ∈ letters, isPlain c = true := by
  intro c member
  rcases letters_of_progression? read c member with blank | letter | rfl
  · simp only [Text.isAsciiBlank, Bool.or_eq_true, beq_iff_eq] at blank
    rcases blank with (((rfl | rfl) | rfl) | rfl) | rfl <;> decide
  · exact isPlain_of_isNameLetter letter
  · decide

theorem passes_argument {letters : List Char} {progression : Progression}
    (read : Selector.progression? letters = some progression) : Passes '(' ')' letters :=
  passes_plain (by decide) (by decide) (plain_argument read)

theorem keeps_argued {name argument : List Char} (valid : isName name = true)
    (inside : Keeps (depth + 1) argument) : Keeps depth (argued name argument) :=
  (keeps_sign (by decide) (by decide) : Keeps depth [':']).append
    ((keeps_name valid).append (inside.bracketed (.inr rfl) (.inr rfl)))

theorem Condition.keeps (condition : Condition) : Keeps depth condition.text := by
  cases condition with
  | test inner => exact inner.keeps
  | plain pseudo =>
      exact (keeps_sign (by decide) (by decide) : Keeps depth [':']).append
        (keeps_name pseudo.isName_name)
  | position argument =>
      exact keeps_argued (by decide)
        (keeps_run (plain_argument argument.progression?_eq) (by simp))
  | ofType argument =>
      exact keeps_argued (by decide) (keeps_run (plain_argument argument.read) (by simp))
  | negation compound => exact keeps_argued (by decide) (compound.keeps fun test => test.keeps)

end Texts

section Joints

variable {rest : List Char}

theorem wordsFrom_blank {current : List Char} {c : Char} (blank : Text.isBlank c = true) :
    wordsFrom {} current (c :: rest) = putWord current (wordsFrom {} [] rest) := by
  rw [wordsFrom, if_pos (by simp [Nesting.isTop, blank])]

/-- Blanks outside of words are left out. -/
theorem wordsFrom_blanks {blanks : List Char} (blank : ∀ c ∈ blanks, Text.isBlank c = true) :
    wordsFrom {} [] (blanks ++ rest) = wordsFrom {} [] rest := by
  induction blanks with
  | nil => rfl
  | cons c blanks inductionHypothesis =>
      rw [List.cons_append, wordsFrom_blank (blank c List.mem_cons_self), inductionHypothesis
        fun d member => blank d (List.mem_cons_of_mem _ member)]
      rfl

/-- The sign of a combinator is a word of its own. -/
theorem wordsFrom_sign {combinator : Selector.Combinator} {current : List Char}
    (signed : combinator ≠ .descendant) :
    wordsFrom {} current (combinator.sign ++ rest) =
      putWord current (putWord combinator.sign (wordsFrom {} [] rest)) := by
  cases combinator with
  | descendant => exact absurd rfl signed
  | child | nextSibling | laterSibling =>
      rw [Selector.Combinator.sign, List.singleton_append, wordsFrom, if_neg (by decide),
        if_pos (by decide)]
      rfl

/-- A joint ends a word, and its sign follows as a word if it has one. -/
theorem wordsFrom_joint (joint : Joint) {current : List Char} (nonempty : current ≠ []) :
    wordsFrom {} current (joint.text ++ rest) =
      current :: putWord joint.combinator.sign (wordsFrom {} [] rest) := by
  obtain ⟨combinator, before, after, blank, apart⟩ := joint
  replace blank : ∀ c ∈ before ++ after, Text.isBlank c = true := fun c member =>
    Text.isBlank_of_isAsciiBlank (List.all_eq_true.1 blank c member)
  have ended : ∀ words, putWord current words = current :: words := by
    intro words
    rw [putWord, if_neg (by simpa using nonempty)]
  have behind : wordsFrom {} [] (after ++ rest) = wordsFrom {} [] rest :=
    wordsFrom_blanks fun c member => blank c (List.mem_append_right before member)
  have signed : ∀ current, combinator ≠ .descendant →
      wordsFrom {} current (combinator.sign ++ (after ++ rest)) =
        putWord current (putWord combinator.sign (wordsFrom {} [] rest)) := by
    intro current signed
    rw [wordsFrom_sign signed, behind]
  simp only [Joint.text, List.append_assoc]
  cases before with
  | nil => rw [List.nil_append, signed current fun same => apart same rfl, ended]
  | cons c before =>
      have front : wordsFrom {} [] (before ++ (combinator.sign ++ (after ++ rest))) =
          wordsFrom {} [] (combinator.sign ++ (after ++ rest)) :=
        wordsFrom_blanks fun d member => blank d (by simp [member])
      rw [List.cons_append, wordsFrom_blank (blank c (by simp)), front, ended]
      by_cases bare : combinator = .descendant
      · rw [bare, Selector.Combinator.sign, List.nil_append, behind]
        rfl
      · rw [signed [] bare]
        rfl

/-- The words behind the first compound. -/
def Query.tailWords (tail : List (Joint × Compound Condition)) : List (List Char) :=
  tail.foldr (fun part words => putWord part.1.combinator.sign (part.2.text :: words)) []

/-- A query is cut into the texts of its compounds and the signs between them. -/
theorem groupWords_query (query : Query) :
    groupWords query.text = query.head.text :: Query.tailWords query.tail := by
  obtain ⟨head, tail⟩ := query
  rw [groupWords, Query.text, head.keeps fun condition => condition.keeps, List.nil_append]
  induction tail generalizing head with
  | nil => simp [Query.tailText, Query.tailWords, wordsFrom, putWord, head.solid.ne_nil]
  | cons part tail inductionHypothesis =>
      obtain ⟨joint, compound⟩ := part
      have later := inductionHypothesis compound
      rw [← List.nil_append compound.text, ← compound.keeps fun condition => condition.keeps] at later
      rw [Query.tailText, List.flatMap_cons, List.append_assoc, wordsFrom_joint joint head.solid.ne_nil]
      exact congrArg (fun words => head.text :: putWord joint.combinator.sign words) later

end Joints

end ElementQuery.Common

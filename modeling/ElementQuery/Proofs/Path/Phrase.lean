/-
This file says which texts are read as which expressions, so that the reading of a long text is put
together from the readings of its parts.
-/

import ElementQuery.Proofs.Path.Signs

namespace ElementQuery.Path

/-- Where an operand may begin, a text is cut into tokens up to the edge behind it, and ends an
operand. -/
def Spells (text : String) (tokens : List Token) : Prop :=
  ∀ rest, Edge rest → tokensFrom false (text.toList ++ rest) = tokens ++ tokensFrom true rest

/-- A text is read as a value of a level. -/
def Phrase (level : Level) (text : String) (value : Expression) : Prop :=
  ∃ tokens, Spells text tokens ∧ Reads level tokens value

/-- A text is read as a node test. -/
def TestPhrase (text : String) (test : NodeTest) : Prop :=
  ∃ tokens, Spells text tokens ∧ Tested test tokens

/-- A text is read as a step; it begins with an axis or an at sign, and not with a slash. -/
def StepPhrase (text : String) (step : Step Expression) : Prop :=
  ∃ tokens, Spells text tokens ∧ ReadsStep tokens step ∧
    (tokens.head? = some .at ∨ ∃ name, tokens.head? = some (.axis name)) ∧
    ∃ c, text.toList.head? = some c ∧ c ≠ '/'

theorem Decimal.spells (decimal : Decimal) :
    Spells (String.ofList decimal.text) [.number decimal.value] := by
  intro rest edge
  obtain ⟨c, more, shape, solid, read⟩ := decimal.readToken_text edge.apart
  rw [String.toList_ofList, shape, tokensFrom_cons solid, read]
  rfl

theorem spells_quoted {quote : Char} {written text : String}
    (isQuote : quote = '\x22' ∨ quote = '\x27')
    (spelled : written.toList = quote :: (text.toList ++ [quote])) (plain : quote ∉ text.toList) :
    Spells written [.literal text] := by
  intro rest _
  have shape : written.toList ++ rest = quote :: (text.toList ++ quote :: rest) := by simp [spelled]
  have solid : Text.isBlank quote = false := by
    rcases isQuote with rfl | rfl <;> decide
  have read : readToken false quote (text.toList ++ quote :: rest) = (.literal text, rest) := by
    have literal := @readLiteral_quoted quote text.toList rest plain
    rw [String.ofList_toList] at literal
    rw [← literal]
    rcases isQuote with rfl | rfl <;> rfl
  rw [shape, tokensFrom_cons solid, read]
  rfl

namespace Phrase

variable {level below wanted : Level} {text left right : String} {value first second : Expression}

theorem loosen (phrase : Phrase level text value) (within : wanted.depth ≤ level.depth) :
    Phrase wanted text value := by
  obtain ⟨tokens, spells, reads⟩ := phrase
  exact ⟨tokens, spells, reads.loosen within⟩

/-- The whole text of an expression is read as the expression. -/
theorem parse_eq (phrase : Phrase level text value) : parse text = .ok value := by
  obtain ⟨tokens, spells, reads⟩ : Phrase .or text value := phrase.loosen (Nat.zero_le _)
  have whole := spells [] edge_nil
  rw [List.append_nil, tokensFrom_nil, List.append_nil] at whole
  rw [parse, lexemes_eq, reads.whole whole]
  rfl

theorem number (n : Nat) : Phrase .primary (toString n) (.number (.ofNat n)) := by
  have spells := (Decimal.ofNat n).spells
  rw [Decimal.text_ofNat, String.ofList_toList, Decimal.value_ofNat] at spells
  exact ⟨_, spells, Reads.number⟩

theorem context : Phrase .primary "." .context := by
  refine ⟨[.dot], fun rest edge => ?_, Reads.context⟩
  have read : readSign? false ('.' :: rest) = some (.dot, rest) := by
    cases rest with
    | nil => rfl
    | cons c rest =>
        have apart := edge.apart c rfl
        have point : c ≠ '.' := by
          intro same
          obtain rfl := same
          exact absurd apart (by decide)
        have digit : c.isDigit = false := by
          apply Bool.eq_false_iff.2
          intro digit
          rw [(isDigit_apart digit).2] at apart
          cases apart
        simp [readSign?, point, digit]
  exact tokensFrom_sign (by decide) read

/-- A text between equal quotes that it does not contain. -/
theorem quoted {quote : Char} {written text : String} (isQuote : quote = '\x22' ∨ quote = '\x27')
    (spelled : written.toList = quote :: (text.toList ++ [quote])) (plain : quote ∉ text.toList) :
    Phrase .primary written (.literal text) :=
  ⟨_, spells_quoted isQuote spelled plain, Reads.literal⟩

/-- An operator between two phrases joins them. -/
theorem binary {sign : String} {token : Token} {apply : Expression → Expression → Expression}
    {operators : Token → Option (Expression → Expression → Expression)}
    (joins : level.operators? = some (operators, below)) (known : operators token = some apply)
    (signs : Sign sign token) (one : Phrase level left first) (two : Phrase below right second) :
    Phrase level (left ++ sign ++ right) (apply first second) := by
  obtain ⟨front, spellsFront, readsFront⟩ := one
  obtain ⟨back, spellsBack, readsBack⟩ := two
  refine ⟨front ++ token :: back, fun rest edge => ?_, readsFront.binary joins known readsBack⟩
  rw [String.toList_append, String.toList_append, List.append_assoc, List.append_assoc,
    spellsFront _ (signs.edge _), signs.spells, spellsBack rest edge]
  simp

theorem negate (phrase : Phrase .unary text value) :
    Phrase .unary ("-" ++ text) (.negate value) := by
  obtain ⟨tokens, spells, reads⟩ := phrase
  refine ⟨.minus :: tokens, fun rest edge => ?_, reads.negate⟩
  rw [String.toList_append, List.append_assoc]
  change tokensFrom false ('-' :: (text.toList ++ rest)) = _
  rw [tokensFrom_sign (by decide) rfl]
  change _ :: tokensFrom false _ = _
  rw [spells rest edge]
  rfl

theorem paren (phrase : Phrase .or text value) : Phrase .primary ("(" ++ text ++ ")") value := by
  obtain ⟨tokens, spells, reads⟩ := phrase
  refine ⟨_, fun rest edge => ?_, reads.paren⟩
  rw [String.toList_append, String.toList_append, List.append_assoc, List.append_assoc]
  change tokensFrom false ('(' :: (text.toList ++ (')' :: rest))) = _
  rw [tokensFrom_sign (by decide) rfl]
  change _ :: tokensFrom false _ = _
  rw [spells _ (edge_cons (by decide) (by decide) (by decide)), tokensFrom_sign (by decide) rfl]
  simp [Token.endsOperand]

end Phrase

/-- The tokens of rows with commas between them. -/
def listed : Rows → List Token
  | [] => []
  | row :: rows => row.1 ++ commaed rows

/-- Phrases with commas between them are cut into rows with commas between them. -/
theorem exists_listed (arguments : List (String × Expression))
    (each : ∀ argument ∈ arguments, Phrase .or argument.1 argument.2) :
    ∃ rows : Rows, (∀ row ∈ rows, Reads .or row.1 row.2) ∧
      rows.map Prod.snd = arguments.map Prod.snd ∧
      (arguments ≠ [] → Spells (String.intercalate ", " (arguments.map Prod.fst)) (listed rows)) := by
  induction arguments with
  | nil => exact ⟨[], by simp, rfl, fun impossible => absurd rfl impossible⟩
  | cons argument arguments inductionHypothesis =>
      obtain ⟨tokens, spells, reads⟩ := each argument List.mem_cons_self
      obtain ⟨rows, readsRows, values, spellsRows⟩ := inductionHypothesis fun other member =>
        each other (List.mem_cons_of_mem _ member)
      refine ⟨(tokens, argument.2) :: rows, ?_, by simp [values], fun _ => ?_⟩
      · intro row member
        rcases List.mem_cons.1 member with rfl | later
        · exact reads
        · exact readsRows row later
      · cases arguments with
        | nil =>
            obtain rfl := List.map_eq_nil_iff.1 values
            simpa [listed, commaed] using spells
        | cons next arguments =>
            intro rest edge
            have further := spellsRows (by simp) rest edge
            cases rows with
            | nil => simp at values
            | cons row rows =>
                generalize joined : String.intercalate ", " ((next :: arguments).map Prod.fst) = text
                  at further
                have shape : (String.intercalate ", "
                    ((argument :: next :: arguments).map Prod.fst)).toList ++ rest =
                    argument.1.toList ++ ',' :: ' ' :: (text.toList ++ rest) := by
                  rw [← joined]
                  simp
                rw [shape, spells _ (edge_cons (by decide) (by decide) (by decide)),
                  tokensFrom_sign (by decide) rfl]
                change _ ++ _ :: tokensFrom false (' ' :: _) = _
                rw [tokensFrom_blank (by decide), further]
                simp [listed, commaed]

/-- A name before a parenthesis is cut off as a name unless it is the name of a kind of node. -/
theorem tokensFrom_called {name : String} (valid : isPathName name = true)
    (noKind : nodeTypes.contains name = false) (rest : List Char) :
    tokensFrom false (name.toList ++ '(' :: rest) =
      .name name :: .leftParen :: tokensFrom false rest := by
  obtain ⟨c, more, shape, solid, read⟩ := @readToken_name name ('(' :: rest) valid (by
    intro c member
    obtain rfl : '(' = c := by simpa using member
    decide)
  have plain : nameToken name ('(' :: rest) = (.name name, '(' :: rest) := by
    have strange : name ∉ nodeTypes := by simpa using noKind
    simp [nameToken, skipBlanks, strange, show Text.isBlank '(' = false by decide]
  rw [shape, tokensFrom_cons solid, read, plain]
  dsimp only
  rw [tokensFrom_sign (by decide) rfl]
  rfl

/-- A call is a name with phrases in parentheses behind it. -/
theorem Phrase.call {name : String} (valid : isPathName name = true)
    (noKind : nodeTypes.contains name = false) (arguments : List (String × Expression))
    (each : ∀ argument ∈ arguments, Phrase .or argument.1 argument.2) :
    Phrase .primary (name ++ "(" ++ String.intercalate ", " (arguments.map Prod.fst) ++ ")")
      (.call name (arguments.map Prod.snd)) := by
  obtain ⟨rows, reads, values, spells⟩ := exists_listed arguments each
  rw [← values]
  refine ⟨_, fun rest edge => ?_, Reads.call reads⟩
  generalize joined : String.intercalate ", " (arguments.map Prod.fst) = text at spells
  have shape : (name ++ "(" ++ text ++ ")").toList ++ rest =
      name.toList ++ '(' :: (text.toList ++ ')' :: rest) := by simp
  have closing : tokensFrom true (')' :: rest) = .rightParen :: tokensFrom true rest :=
    tokensFrom_sign (by decide) rfl
  rw [shape, tokensFrom_called valid noKind]
  cases rows with
  | nil =>
      have empty : arguments = [] := List.map_eq_nil_iff.1 values.symm
      rw [empty] at joined
      rw [← joined]
      change _ :: _ :: tokensFrom false (')' :: rest) = _
      rw [tokensFrom_sign (by decide) rfl]
      rfl
  | cons row rows =>
      have full : arguments ≠ [] := by
        intro same
        obtain rfl := same
        cases values
      rw [spells full _ (edge_cons (by decide) (by decide) (by decide)), closing]
      simp [called, listed]

/-- A name before an edge is no axis and no kind of node. -/
theorem nameToken_of_edge {name : String} {rest : List Char} (edge : Edge rest) :
    nameToken name rest = (.name name, rest) := by
  have noColons : "::".toList.isPrefixOf (skipBlanks rest) = false := by
    cases next : skipBlanks rest with
    | nil => rfl
    | cons d rest =>
        have colon : ':' ≠ d := fun same => (edge.plain d (by rw [next]; rfl)).1 same.symm
        show (':' == d && _) = false
        rw [beq_eq_false_iff_ne.2 colon, Bool.false_and]
  have noParen : ¬(skipBlanks rest).head? = some '(' := fun opening =>
    (edge.plain '(' opening).2 rfl
  rw [nameToken]
  simp only [noColons, noParen, Bool.false_eq_true, if_false, decide_false, Bool.false_and]

/-- A name is cut off as a name before an edge. -/
theorem spells_name {name : String} (valid : isPathName name = true) :
    Spells name [.name name] := by
  intro rest edge
  obtain ⟨c, more, shape, solid, read⟩ := readToken_name valid edge.apart
  rw [shape, tokensFrom_cons solid, read, nameToken_of_edge edge]
  rfl

theorem TestPhrase.any : TestPhrase "*" .any :=
  ⟨_, fun _ _ => tokensFrom_sign (by decide) rfl, .any⟩

theorem TestPhrase.name {name : String} (valid : isPathName name = true) :
    TestPhrase name (.name name) :=
  ⟨_, spells_name valid, .name name⟩

theorem TestPhrase.node : TestPhrase "node()" .node := by
  refine ⟨_, fun rest edge => ?_, .node⟩
  obtain ⟨c, more, shape, solid, read⟩ :=
    @readToken_name "node" ('(' :: ')' :: rest) (by decide) (by
      intro c member
      obtain rfl : '(' = c := by simpa using member
      decide)
  have kind : nameToken "node" ('(' :: ')' :: rest) = (.nodeType "node", '(' :: ')' :: rest) := by
    simp [nameToken, nodeTypes, skipBlanks, show Text.isBlank '(' = false by decide]
  show tokensFrom false ("node".toList ++ '(' :: ')' :: rest) = _
  rw [shape, tokensFrom_cons solid, read, kind]
  show _ :: tokensFrom false ('(' :: ')' :: rest) = _
  rw [tokensFrom_sign (by decide) rfl]
  show _ :: _ :: tokensFrom false (')' :: rest) = _
  rw [tokensFrom_sign (by decide) rfl]
  rfl

/-- An axis is cut off as one token with the two colons behind it. -/
theorem tokensFrom_axis (axis : Axis) (rest : List Char) :
    tokensFrom false (axis.name.toList ++ ':' :: ':' :: rest) =
      .axis axis.name :: .doubleColon :: tokensFrom false rest := by
  have valid : isPathName axis.name = true := by cases axis <;> decide
  obtain ⟨c, more, shape, solid, read⟩ := @readToken_name axis.name (':' :: ':' :: rest) valid (by
    intro c member
    obtain rfl : ':' = c := by simpa using member
    decide)
  have plain : nameToken axis.name (':' :: ':' :: rest) = (.axis axis.name, ':' :: ':' :: rest) := by
    simp [nameToken, skipBlanks, show Text.isBlank ':' = false by decide]
  rw [shape, tokensFrom_cons solid, read, plain]
  dsimp only
  rw [tokensFrom_sign (by decide) rfl]
  rfl

/-- Phrases in brackets are cut into rows in brackets. -/
theorem exists_bracketed (predicates : List (String × Expression))
    (each : ∀ predicate ∈ predicates, Phrase .or predicate.1 predicate.2) :
    ∃ rows : Rows, (∀ row ∈ rows, Reads .or row.1 row.2) ∧
      rows.map Prod.snd = predicates.map Prod.snd ∧ ∀ rest, Edge rest →
      Edge ((String.join (predicates.map fun predicate => "[" ++ predicate.1 ++ "]")).toList ++
        rest) ∧
      tokensFrom true ((String.join (predicates.map fun predicate =>
        "[" ++ predicate.1 ++ "]")).toList ++ rest) = bracketed rows ++ tokensFrom true rest := by
  induction predicates with
  | nil => exact ⟨[], by simp, rfl, fun rest edge => by simpa [bracketed] using edge⟩
  | cons predicate predicates inductionHypothesis =>
      obtain ⟨tokens, spells, reads⟩ := each predicate List.mem_cons_self
      obtain ⟨rows, readsRows, values, spellsRows⟩ := inductionHypothesis fun other member =>
        each other (List.mem_cons_of_mem _ member)
      refine ⟨(tokens, predicate.2) :: rows, ?_, by simp [values], fun rest edge => ?_⟩
      · intro row member
        rcases List.mem_cons.1 member with rfl | later
        · exact reads
        · exact readsRows row later
      · generalize joined : String.join (predicates.map fun predicate =>
          "[" ++ predicate.1 ++ "]") = text at spellsRows
        have shape : (String.join ((predicate :: predicates).map fun predicate =>
            "[" ++ predicate.1 ++ "]")).toList ++ rest =
            '[' :: (predicate.1.toList ++ ']' :: (text.toList ++ rest)) := by
          rw [← joined]
          simp
        rw [shape]
        refine ⟨edge_cons (by decide) (by decide) (by decide), ?_⟩
        have closing : tokensFrom true (']' :: (text.toList ++ rest)) =
            .rightBracket :: tokensFrom true (text.toList ++ rest) :=
          tokensFrom_sign (by decide) rfl
        rw [tokensFrom_sign (by decide) rfl]
        change _ :: tokensFrom false _ = _
        rw [spells _ (edge_cons (by decide) (by decide) (by decide)), closing,
          (spellsRows rest edge).2]
        simp [bracketed]

theorem StepPhrase.axis (axis : Axis) {text : String} {test : NodeTest} (tested : TestPhrase text test)
    (predicates : List (String × Expression))
    (each : ∀ predicate ∈ predicates, Phrase .or predicate.1 predicate.2) :
    StepPhrase (axis.name ++ "::" ++ text ++
        String.join (predicates.map fun predicate => "[" ++ predicate.1 ++ "]"))
      ⟨axis, test, predicates.map Prod.snd⟩ := by
  obtain ⟨tokens, spells, form⟩ := tested
  obtain ⟨rows, reads, values, spellsRows⟩ := exists_bracketed predicates each
  rw [← values]
  refine ⟨_, fun rest edge => ?_, ReadsStep.axis axis form reads, .inr ⟨_, rfl⟩, ?_⟩
  · rw [String.toList_append, String.toList_append, String.toList_append, List.append_assoc,
      List.append_assoc, List.append_assoc]
    change tokensFrom false (axis.name.toList ++ ':' :: ':' :: (text.toList ++ _)) = _
    rw [tokensFrom_axis, spells _ (spellsRows rest edge).1, (spellsRows rest edge).2]
    simp
  · have known : axis.name.toList.head? ≠ none ∧ axis.name.toList.head? ≠ some '/' := by
      cases axis <;> decide
    obtain ⟨c, begins⟩ := Option.ne_none_iff_exists'.1 known.1
    have shape : (axis.name ++ "::" ++ text ++ String.join (predicates.map fun predicate =>
        "[" ++ predicate.1 ++ "]")).toList.head? = some c := by
      simp only [String.toList_append, List.append_assoc]
      rw [List.head?_append, begins, Option.some_or]
    refine ⟨c, shape, ?_⟩
    intro same
    obtain rfl := same
    exact known.2 begins

theorem StepPhrase.attribute {name : String} (valid : isPathName name = true) :
    StepPhrase ("@" ++ name) ⟨.attribute, .name name, []⟩ := by
  refine ⟨_, fun rest edge => ?_, ReadsStep.attribute name, .inl rfl, ?_⟩
  · rw [String.toList_append, List.append_assoc]
    change tokensFrom false ('@' :: (name.toList ++ rest)) = _
    rw [tokensFrom_sign (by decide) rfl]
    change _ :: tokensFrom false _ = _
    rw [spells_name valid rest edge]
    rfl
  · exact ⟨'@', by simp, by decide⟩

namespace Phrase

theorem step {text : String} {step : Step Expression} (phrase : StepPhrase text step) :
    Phrase .primary text (.step step) := by
  obtain ⟨tokens, spells, reads, begins, -⟩ := phrase
  exact ⟨tokens, spells, Reads.step reads begins⟩

/-- A slash leads from a path on along a step. -/
theorem path {left right : String} {base : Expression} {step : Step Expression}
    (phrase : Phrase .path left base) (further : StepPhrase right step) :
    Phrase .path (left ++ "/" ++ right) (.path base step) := by
  obtain ⟨front, spellsFront, readsFront⟩ := phrase
  obtain ⟨back, spellsBack, readsBack, -, c, begins, noSlash⟩ := further
  refine ⟨_, fun rest edge => ?_, readsFront.path readsBack⟩
  rw [String.toList_append, String.toList_append, List.append_assoc, List.append_assoc]
  change tokensFrom false (left.toList ++ '/' :: (right.toList ++ rest)) = _
  rw [spellsFront _ (edge_cons (by decide) (by decide) (by decide))]
  obtain ⟨tail, shape⟩ := List.head?_eq_some_iff.1 begins
  have sign : readSign? true ('/' :: (right.toList ++ rest)) =
      some (.slash, right.toList ++ rest) := by
    rw [shape, List.cons_append]
    simp [readSign?, noSlash]
  rw [tokensFrom_sign (by decide) sign]
  change _ ++ _ :: tokensFrom false _ = _
  rw [spellsBack rest edge]
  simp

end Phrase

end ElementQuery.Path

/-
This file says which rows of tokens are read as which expressions, level by level of precedence, so
that the reading of a long row is put together from the readings of its parts.
-/

import ElementQuery.Path.Parser

namespace ElementQuery.Path

/-- The levels of precedence, the loosest first. -/
inductive Level where
  | or
  | and
  | equality
  | relational
  | additive
  | multiplicative
  | unary
  | union
  | path
  | filter
  | primary
deriving DecidableEq, Repr

/-- How closely a token ties what stands before it to what stands behind it. -/
def strength : Token → Nat
  | .or => 1
  | .and => 2
  | .equal | .notEqual => 3
  | .less | .atMost | .greater | .atLeast => 4
  | .plus | .minus => 5
  | .multiply | .div | .mod => 6
  | .pipe => 7
  | .slash | .doubleSlash => 8
  | .leftBracket => 9
  | .leftParen => 10
  | _ => 0

namespace Level

/-- A reader of this level goes on at tokens of this strength and stops before weaker ones. -/
def rank : Level → Nat
  | or => 1
  | and => 2
  | equality => 3
  | relational => 4
  | additive => 5
  | multiplicative => 6
  | unary => 6
  | union => 7
  | path => 8
  | filter => 8
  | primary => 8

/-- The operators that a level applies from left to right, and the level of their operands. -/
def operators? : Level → Option ((Token → Option (Expression → Expression → Expression)) × Level)
  | or => some (orOperator?, and)
  | and => some (andOperator?, equality)
  | equality => some (equalityOperator?, relational)
  | relational => some (relationalOperator?, additive)
  | additive => some (additiveOperator?, multiplicative)
  | multiplicative => some (multiplicativeOperator?, unary)
  | union => some (unionOperator?, path)
  | unary | path | filter | primary => none

/-- The next looser level. -/
def looser : Level → Level
  | or => or
  | and => or
  | equality => and
  | relational => equality
  | additive => relational
  | multiplicative => additive
  | unary => multiplicative
  | union => unary
  | path => union
  | filter => path
  | primary => filter

/-- The number of looser levels. -/
def depth : Level → Nat
  | or => 0
  | and => 1
  | equality => 2
  | relational => 3
  | additive => 4
  | multiplicative => 5
  | unary => 6
  | union => 7
  | path => 8
  | filter => 9
  | primary => 10

end Level

section Readers

variable (nested : List Lexeme → Except Fault (Expression × List Lexeme))

def readAt : Level → List Lexeme → Except Fault (Expression × List Lexeme)
  | .or => readOr nested
  | .and => readAnd nested
  | .equality => readEquality nested
  | .relational => readRelational nested
  | .additive => readAdditive nested
  | .multiplicative => readMultiplicative nested
  | .unary => fun text => readUnary nested text.length text
  | .union => leftChain unionOperator? (readPath nested)
  | .path => readPath nested
  | .filter => readFilter nested
  | .primary => readPrimary nested

/-- How a level goes on when it has read a value: it applies the operators that follow, or the steps,
or nothing. -/
def continueAt (level : Level) (moves : Nat) (value : Expression) (rest : List Lexeme) :
    Except Fault (Expression × List Lexeme) :=
  match level.operators? with
  | some (operators, below) => chainFrom operators (readAt nested below) moves value rest
  | none =>
      if level = .path then chainFrom pathOperator? (readStep nested) moves value rest
      else .ok (value, rest)

end Readers

/-- A row of tokens is read as a value when, whatever weak enough token stands behind it, the reader
of the level takes exactly this row and then goes on with the value. A row needs no more levels of
nesting than it has tokens. -/
def Reads (level : Level) (tokens : List Token) (value : Expression) : Prop :=
  ∀ levels, tokens.length ≤ levels → ∀ text rest : List Lexeme,
    text.map Lexeme.token = tokens → strength (current rest) ≤ level.rank →
    ∃ moves, rest.length ≤ moves ∧ readAt (readExpression levels) level (text ++ rest) =
      continueAt (readExpression levels) level moves value rest

variable {nested : List Lexeme → Except Fault (Expression × List Lexeme)} {level below : Level}
  {operators : Token → Option (Expression → Expression → Expression)}
  {tokens left right : List Token} {value first second : Expression}

/-- A level of operators reads one operand and then goes on. -/
theorem readAt_of_operators? (joins : level.operators? = some (operators, below)) :
    readAt nested level = leftChain operators (readAt nested below) := by
  cases level <;> cases joins <;> rfl

/-- The operators of a level are the tokens of its strength. -/
theorem operators_eq_none (joins : level.operators? = some (operators, below)) {token : Token}
    (weak : strength token < level.rank) : operators token = none := by
  cases level <;> cases joins <;> cases token <;>
    first | rfl | exact absurd weak (by decide)

theorem strength_of_operators (joins : level.operators? = some (operators, below)) {token : Token}
    {apply : Expression → Expression → Expression} (known : operators token = some apply) :
    strength token = level.rank := by
  cases level <;> cases joins <;> cases token <;>
    first | rfl | exact absurd known (by simp [orOperator?, andOperator?, equalityOperator?,
      relationalOperator?, additiveOperator?, multiplicativeOperator?, unionOperator?])

theorem chainFrom_of_none {A B : Type} {operator? : Token → Option (A → B → A)}
    {operand : List Lexeme → Except Fault (B × List Lexeme)} {moves : Nat} {left : A}
    {rest : List Lexeme} (none : operator? (current rest) = none) :
    chainFrom operator? operand moves left rest = .ok (left, rest) := by
  cases moves with
  | zero => rfl
  | succ moves => rw [chainFrom, none]

/-- A level does not go on at a token that is too weak for it. -/
theorem continueAt_of_lt {moves : Nat} {rest : List Lexeme}
    (weak : strength (current rest) < level.rank) :
    continueAt nested level moves value rest = .ok (value, rest) := by
  unfold continueAt
  split
  · rename_i joins
    exact chainFrom_of_none (operators_eq_none joins weak)
  · split
    · rename_i same
      subst same
      apply chainFrom_of_none
      generalize current rest = token at weak
      cases token <;> first | rfl | exact absurd weak (by decide)
    · rfl

/-- The operands of a level do not go on at its operators. -/
theorem continueAt_below (joins : level.operators? = some (operators, below)) {moves : Nat}
    {rest : List Lexeme} (weak : strength (current rest) ≤ level.rank) :
    continueAt nested below moves value rest = .ok (value, rest) := by
  by_cases unary : below = .unary
  · subst unary
    rfl
  · refine continueAt_of_lt (Nat.lt_of_le_of_lt weak ?_)
    cases level <;> cases joins <;> first | decide | exact absurd rfl unary

theorem rank_le_below (joins : level.operators? = some (operators, below)) :
    level.rank ≤ below.rank := by
  cases level <;> cases joins <;> decide

namespace Reads

/-- A row is read to its end when a token stands behind it at which the level does not go on. -/
theorem finish {levels : Nat} (reads : Reads level tokens value)
    (enough : tokens.length ≤ levels) {text rest : List Lexeme}
    (spelled : text.map Lexeme.token = tokens) (weak : strength (current rest) < level.rank) :
    readAt (readExpression levels) level (text ++ rest) = .ok (value, rest) := by
  obtain ⟨moves, -, read⟩ := reads levels enough text rest spelled (Nat.le_of_lt weak)
  rw [read, continueAt_of_lt weak]

/-- An operand is a row of the level of operators above it. -/
theorem operand (joins : level.operators? = some (operators, below))
    (reads : Reads below tokens value) : Reads level tokens value := by
  intro levels enough text rest spelled weak
  obtain ⟨moves, -, read⟩ := reads levels enough text rest spelled
    (Nat.le_trans weak (rank_le_below joins))
  refine ⟨rest.length, Nat.le_refl _, ?_⟩
  rw [readAt_of_operators? joins, leftChain, read, continueAt_below joins weak, continueAt, joins]
  rfl

/-- An operator between two rows joins them; the right one is an operand. -/
theorem binary {token : Token} {apply : Expression → Expression → Expression}
    (joins : level.operators? = some (operators, below)) (known : operators token = some apply)
    (one : Reads level left first) (two : Reads below right second) :
    Reads level (left ++ token :: right) (apply first second) := by
  intro levels enough text rest spelled weak
  obtain ⟨front, back, rfl, spelledLeft, spelledBack⟩ := List.map_eq_append_iff.1 spelled
  obtain ⟨sign, back, rfl, rfl, spelledRight⟩ := List.map_eq_cons_iff.1 spelledBack
  rw [List.length_append, List.length_cons] at enough
  have strong := strength_of_operators joins known
  obtain ⟨moves, many, read⟩ := one levels (by omega) front (sign :: back ++ rest) spelledLeft
    (Nat.le_of_eq strong)
  obtain ⟨more, -, operandRead⟩ := two levels (by omega) back rest spelledRight
    (Nat.le_trans weak (rank_le_below joins))
  rw [List.cons_append, List.length_cons, List.length_append] at many
  obtain ⟨moves, rfl⟩ : ∃ fewer, moves = fewer + 1 := ⟨moves - 1, by omega⟩
  refine ⟨moves, by omega, ?_⟩
  rw [List.append_assoc, read, continueAt, continueAt, joins]
  dsimp only [List.cons_append]
  rw [chainFrom, current, known]
  dsimp only
  rw [List.drop_one, List.tail_cons, operandRead, continueAt_below joins weak]
  rfl

/-- What is read without going on at any operator. -/
theorem of_readAt (stops : level.operators? = none) (other : level ≠ .path)
    (reads : ∀ levels, tokens.length ≤ levels → ∀ text rest : List Lexeme,
      text.map Lexeme.token = tokens → strength (current rest) ≤ level.rank →
      readAt (readExpression levels) level (text ++ rest) = .ok (value, rest)) :
    Reads level tokens value := by
  intro levels enough text rest spelled weak
  refine ⟨rest.length, Nat.le_refl _, ?_⟩
  rw [reads levels enough text rest spelled weak, continueAt, stops]
  simp [other]

/-- Predicates end before a token that opens no bracket. -/
theorem readPredicates_of_le {moves : Nat} {rest : List Lexeme} (weak : strength (current rest) ≤ 8) :
    readPredicates nested moves rest = .ok ([], rest) := by
  cases moves with
  | zero => rfl
  | succ moves =>
      have other : current rest ≠ .leftBracket := by
        intro same
        rw [same] at weak
        exact absurd weak (by decide)
      rw [readPredicates, if_neg other]

theorem filter_of_primary (reads : Reads .primary tokens value) : Reads .filter tokens value := by
  apply of_readAt rfl (by decide)
  intro levels enough text rest spelled weak
  obtain ⟨_, -, read⟩ := reads levels enough text rest spelled weak
  change readPrimary _ _ = .ok (value, rest) at read
  change readFilter _ _ = _
  rw [readFilter, read]
  change (readPredicates _ _ rest >>= _) = _
  rw [readPredicates_of_le weak]
  rfl

/-- No primary expression begins with a sign of the looser levels. -/
theorem readFilter_error {text : List Lexeme}
    (begins : current text = .slash ∨ current text = .doubleSlash ∨ current text = .minus) :
    readFilter nested text = .error (.unexpected text) := by
  rcases begins with same | same | same <;> simp [readFilter, readPrimary, same] <;> rfl

theorem path_of_filter (reads : Reads .filter tokens value) : Reads .path tokens value := by
  intro levels enough text rest spelled weak
  obtain ⟨_, -, read⟩ := reads levels enough text rest spelled weak
  change readFilter _ _ = .ok (value, rest) at read
  refine ⟨rest.length, Nat.le_refl _, ?_⟩
  change readPath _ _ = chainFrom pathOperator? _ rest.length value rest
  unfold readPath
  split
  · rename_i begins
    rw [readFilter_error (.inl begins)] at read
    cases read
  · rename_i begins
    rw [readFilter_error (.inr (.inl begins))] at read
    cases read
  · rw [read]
    rfl

theorem unary_of_union (reads : Reads .union tokens value) : Reads .unary tokens value := by
  apply of_readAt rfl (by decide)
  intro levels enough text rest spelled weak
  have read := reads.finish enough spelled (Nat.lt_succ_of_le weak)
  change leftChain unionOperator? _ _ = .ok (value, rest) at read
  change readUnary _ (text ++ rest).length _ = _
  cases shape : (text ++ rest).length with
  | zero => exact read
  | succ moves =>
      have unsigned : current (text ++ rest) ≠ .minus := by
        intro begins
        rw [leftChain, readPath, begins] at read
        dsimp only at read
        rw [readFilter_error (.inr (.inr begins))] at read
        cases read
      rw [readUnary, if_neg unsigned]
      exact read

theorem looser (reads : Reads level tokens value) : Reads level.looser tokens value := by
  cases level with
  | or => exact reads
  | unary => exact reads.operand rfl
  | union => exact reads.unary_of_union
  | path => exact reads.operand rfl
  | filter => exact reads.path_of_filter
  | primary => exact reads.filter_of_primary
  | and | equality | relational | additive | multiplicative => exact reads.operand rfl

/-- A row of a level is a row of every looser one. -/
theorem loosen {wanted : Level} (reads : Reads level tokens value)
    (within : wanted.depth ≤ level.depth) : Reads wanted tokens value := by
  induction gap : level.depth - wanted.depth generalizing level with
  | zero =>
      have same : level.depth = wanted.depth := by omega
      have equal : level = wanted := by
        cases level <;> cases wanted <;> first | rfl | exact absurd same (by decide)
      exact equal ▸ reads
  | succ gap inductionHypothesis =>
      have shorter : level.looser.depth = level.depth - 1 := by cases level <;> rfl
      exact inductionHypothesis reads.looser (by omega) (by omega)

/-- A minus sign negates what stands behind it. -/
theorem negate (reads : Reads .unary tokens value) :
    Reads .unary (.minus :: tokens) (.negate value) := by
  apply of_readAt rfl (by decide)
  intro levels enough text rest spelled weak
  obtain ⟨sign, text, rfl, shape, rfl⟩ := List.map_eq_cons_iff.1 spelled
  obtain ⟨_, -, read⟩ := reads levels (Nat.le_of_succ_le enough) text rest rfl weak
  change readUnary _ (text ++ rest).length _ = .ok (value, rest) at read
  change readUnary _ ((text ++ rest).length + 1) _ = _
  rw [List.cons_append, readUnary, current, if_pos shape, List.drop_one, List.tail_cons, read]
  rfl

/-- A token that is read as a primary expression wherever it stands is a row of its own. -/
theorem single {token : Token} {value : Expression}
    (read : ∀ levels, ∀ lexeme : Lexeme, lexeme.token = token → ∀ rest,
      readPrimary (readExpression levels) (lexeme :: rest) = .ok (value, rest)) :
    Reads .primary [token] value := by
  apply of_readAt rfl (by decide)
  intro levels enough text rest spelled weak
  obtain ⟨lexeme, text, rfl, shape, none⟩ := List.map_eq_cons_iff.1 spelled
  obtain rfl := List.map_eq_nil_iff.1 none
  exact read levels lexeme shape rest

theorem number {number : Binary64} : Reads .primary [.number number] (.number number) :=
  single fun levels lexeme shape rest => by simp [readPrimary, current, shape]

theorem literal {text : String} : Reads .primary [.literal text] (.literal text) :=
  single fun levels lexeme shape rest => by simp [readPrimary, current, shape]

theorem context : Reads .primary [.dot] .context :=
  single fun levels lexeme shape rest => by simp [readPrimary, current, shape]

/-- Whatever stands between parentheses or brackets, or before a comma, is read as an expression of
its own, with one level of nesting less. -/
theorem inside {levels : Nat} (reads : Reads .or tokens value) (enough : tokens.length < levels)
    {text rest : List Lexeme} (spelled : text.map Lexeme.token = tokens)
    (weak : strength (current rest) = 0) :
    readExpression levels (text ++ rest) = .ok (value, rest) := by
  obtain ⟨levels, rfl⟩ : ∃ fewer, levels = fewer + 1 := ⟨levels - 1, by omega⟩
  exact reads.finish (Nat.le_of_lt_succ enough) spelled (weak ▸ Nat.one_pos)

/-- A required token is taken when it stands there. -/
theorem expect_cons {wanted : Token} {lexeme : Lexeme} {rest : List Lexeme}
    (shape : lexeme.token = wanted) : expect wanted (lexeme :: rest) = .ok rest := by
  rw [expect, current, if_pos shape]
  rfl

theorem paren (reads : Reads .or tokens value) :
    Reads .primary (.leftParen :: tokens ++ [.rightParen]) value := by
  apply of_readAt rfl (by decide)
  intro levels enough text rest spelled weak
  obtain ⟨opening, text, rfl, shape, spelled⟩ := List.map_eq_cons_iff.1 spelled
  obtain ⟨inner, closing, rfl, spelledInner, spelled⟩ := List.map_eq_append_iff.1 spelled
  obtain ⟨closing, none, rfl, form, empty⟩ := List.map_eq_cons_iff.1 spelled
  obtain rfl := List.map_eq_nil_iff.1 empty
  simp only [List.length_append, List.length_cons] at enough
  have inside : readExpression levels (inner ++ closing :: rest) = .ok (value, closing :: rest) :=
    reads.inside (by omega) spelledInner (by rw [current, form]; rfl)
  change readPrimary _ _ = _
  rw [List.cons_append, List.append_assoc, readPrimary, current, shape]
  dsimp only
  rw [List.drop_one, List.tail_cons, List.singleton_append, inside]
  change (expect .rightParen (closing :: rest) >>= _) = _
  rw [expect_cons form]
  rfl

end Reads

/-- Rows of tokens, each with the expression as which it is read. -/
abbrev Rows := List (List Token × Expression)

/-- Every row stands in brackets. -/
def bracketed (rows : Rows) : List Token :=
  rows.flatMap fun row => .leftBracket :: row.1 ++ [.rightBracket]

/-- Every row stands behind a comma. -/
def commaed (rows : Rows) : List Token := rows.flatMap fun row => .comma :: row.1

/-- Rows in brackets are read as the predicates that they hold. -/
theorem readPredicates_of_reads {rows : Rows} (each : ∀ row ∈ rows, Reads .or row.1 row.2)
    {levels moves : Nat} (enough : (bracketed rows).length ≤ levels) {text rest : List Lexeme}
    (spelled : text.map Lexeme.token = bracketed rows) (many : text.length + rest.length ≤ moves)
    (weak : strength (current rest) ≤ 8) :
    readPredicates (readExpression levels) moves (text ++ rest) =
      .ok (rows.map Prod.snd, rest) := by
  induction rows generalizing text moves with
  | nil =>
      obtain rfl := List.map_eq_nil_iff.1 spelled
      exact Reads.readPredicates_of_le weak
  | cons row rows inductionHypothesis =>
      rw [bracketed, List.flatMap_cons] at spelled enough
      obtain ⟨front, text, rfl, spelled, later⟩ := List.map_eq_append_iff.1 spelled
      obtain ⟨opening, front, rfl, shape, spelled⟩ := List.map_eq_cons_iff.1 spelled
      obtain ⟨inner, back, rfl, spelledInner, ending⟩ := List.map_eq_append_iff.1 spelled
      obtain ⟨closing, none, rfl, form, empty⟩ := List.map_eq_cons_iff.1 ending
      obtain rfl := List.map_eq_nil_iff.1 empty
      simp only [List.length_append, List.length_cons] at enough many
      obtain ⟨moves, rfl⟩ : ∃ fewer, moves = fewer + 1 := ⟨moves - 1, by omega⟩
      have inside : readExpression levels (inner ++ closing :: (text ++ rest)) =
          .ok (row.2, closing :: (text ++ rest)) :=
        (each row List.mem_cons_self).inside (by omega) spelledInner (by rw [current, form]; rfl)
      have others := inductionHypothesis (fun row member => each row (List.mem_cons_of_mem _ member))
        (by rw [bracketed]; omega) later (by omega : text.length + rest.length ≤ moves)
      rw [List.append_assoc, List.cons_append, readPredicates, current, if_pos shape, List.drop_one,
        List.tail_cons, List.append_assoc, List.singleton_append, inside]
      change (expect .rightBracket (closing :: (text ++ rest)) >>= _) = _
      rw [Reads.expect_cons form]
      change (readPredicates _ moves (text ++ rest) >>= _) = _
      rw [others]
      rfl

/-- Behind an argument stands a comma or what stands behind the last argument. -/
theorem strength_commaed {rows : Rows} {text rest : List Lexeme}
    (spelled : text.map Lexeme.token = commaed rows) (closed : current rest = .rightParen) :
    strength (current (text ++ rest)) = 0 := by
  cases rows with
  | nil =>
      obtain rfl := List.map_eq_nil_iff.1 spelled
      rw [List.nil_append, closed]
      rfl
  | cons row rows =>
      obtain ⟨comma, text, rfl, shape, -⟩ := List.map_eq_cons_iff.1 spelled
      rw [List.cons_append, current, shape]
      rfl

/-- Rows behind commas are read as the further arguments of a call. -/
theorem readMoreArguments_of_reads {rows : Rows} (each : ∀ row ∈ rows, Reads .or row.1 row.2)
    {levels moves : Nat} (enough : (commaed rows).length ≤ levels) {text rest : List Lexeme}
    (spelled : text.map Lexeme.token = commaed rows) (many : text.length + rest.length ≤ moves)
    (closed : current rest = .rightParen) :
    readMoreArguments (readExpression levels) moves (text ++ rest) =
      .ok (rows.map Prod.snd, rest) := by
  induction rows generalizing text moves with
  | nil =>
      obtain rfl := List.map_eq_nil_iff.1 spelled
      have other : current ([] ++ rest) ≠ .comma := by
        rw [List.nil_append, closed]
        decide
      cases moves with
      | zero => rfl
      | succ moves =>
          rw [readMoreArguments, if_neg other]
          rfl
  | cons row rows inductionHypothesis =>
      rw [commaed, List.flatMap_cons] at spelled enough
      obtain ⟨front, text, rfl, spelled, later⟩ := List.map_eq_append_iff.1 spelled
      obtain ⟨comma, inner, rfl, shape, spelled⟩ := List.map_eq_cons_iff.1 spelled
      simp only [List.length_append, List.length_cons] at enough many
      obtain ⟨moves, rfl⟩ : ∃ fewer, moves = fewer + 1 := ⟨moves - 1, by omega⟩
      have inside : readExpression levels (inner ++ (text ++ rest)) =
          .ok (row.2, text ++ rest) :=
        (each row List.mem_cons_self).inside (by omega) spelled (strength_commaed later closed)
      have others := inductionHypothesis (fun row member => each row (List.mem_cons_of_mem _ member))
        (by rw [commaed]; omega) later (by omega : text.length + rest.length ≤ moves)
      rw [List.append_assoc, List.cons_append, readMoreArguments, current, if_pos shape,
        List.drop_one, List.tail_cons, inside]
      change (readMoreArguments _ moves (text ++ rest) >>= _) = _
      rw [others]
      rfl

/-- The tokens of a call: its name and its arguments in parentheses. -/
def called (name : String) : Rows → List Token
  | [] => [.name name, .leftParen, .rightParen]
  | row :: rows => .name name :: .leftParen :: row.1 ++ commaed rows ++ [.rightParen]

/-- No expression begins with a closing parenthesis. -/
theorem readExpression_rightParen {levels : Nat} {text : List Lexeme}
    (begins : current text = .rightParen) :
    readExpression levels text = .error (.unexpected text) := by
  cases levels with
  | zero => rfl
  | succ levels =>
      have primary : readPath (readExpression levels) text = .error (.unexpected text) := by
        simp [readPath, readFilter, readPrimary, begins]
        rfl
      have unary : readUnary (readExpression levels) text.length text =
          .error (.unexpected text) := by
        cases text.length with
        | zero =>
            rw [readUnary, leftChain, primary]
            rfl
        | succ moves =>
            rw [readUnary, if_neg (by rw [begins]; decide), leftChain, primary]
            rfl
      rw [readExpression, readOr, leftChain, readAnd, leftChain, readEquality, leftChain,
        readRelational, leftChain, readAdditive, leftChain, readMultiplicative, leftChain, unary]
      rfl

/-- Between the parentheses of a call stand its arguments. -/
theorem readArguments_of_reads {levels : Nat} {row : List Token × Expression} {rows : Rows}
    (each : ∀ other ∈ row :: rows, Reads .or other.1 other.2) {inner more rest : List Lexeme}
    {closing : Lexeme} (enough : row.1.length < levels) (within : (commaed rows).length ≤ levels)
    (spelled : inner.map Lexeme.token = row.1) (spelledMore : more.map Lexeme.token = commaed rows)
    (closed : closing.token = .rightParen) :
    readArguments (readExpression levels) (inner ++ (more ++ closing :: rest)) =
      .ok (row.2 :: rows.map Prod.snd, rest) := by
  have first : readExpression levels (inner ++ (more ++ closing :: rest)) =
      .ok (row.2, more ++ closing :: rest) :=
    (each row List.mem_cons_self).inside enough spelled (strength_commaed spelledMore closed)
  have others : readMoreArguments (readExpression levels) (more ++ closing :: rest).length
      (more ++ closing :: rest) = .ok (rows.map Prod.snd, closing :: rest) :=
    readMoreArguments_of_reads (fun row member => each row (List.mem_cons_of_mem _ member))
      within spelledMore (by simp) closed
  have opens : current (inner ++ (more ++ closing :: rest)) ≠ .rightParen := by
    intro begins
    rw [readExpression_rightParen begins] at first
    cases first
  rw [readArguments, if_neg opens, first]
  change (readMoreArguments _ _ _ >>= _) = _
  rw [others]
  change (expect .rightParen (closing :: rest) >>= _) = _
  rw [Reads.expect_cons closed]
  rfl

/-- A name before a parenthesis calls a function with what is read as the arguments. -/
theorem readPrimary_call {nested : List Lexeme → Except Fault (Expression × List Lexeme)}
    {name : String} {title opening : Lexeme} {rest left : List Lexeme} {arguments : List Expression}
    (shape : title.token = .name name) (form : opening.token = .leftParen)
    (taken : readArguments nested rest = .ok (arguments, left)) :
    readPrimary nested (title :: opening :: rest) = .ok (.call name arguments, left) := by
  rw [readPrimary, current, shape]
  dsimp only
  rw [List.drop_one, List.tail_cons, current, if_pos form]
  change (readArguments _ rest >>= _) = _
  rw [taken]
  rfl

theorem Reads.call {name : String} {rows : Rows} (each : ∀ row ∈ rows, Reads .or row.1 row.2) :
    Reads .primary (called name rows) (.call name (rows.map Prod.snd)) := by
  apply of_readAt rfl (by decide)
  intro levels enough text rest spelled weak
  change readPrimary _ _ = _
  cases rows with
  | nil =>
      obtain ⟨title, text, rfl, shape, spelled⟩ := List.map_eq_cons_iff.1 spelled
      obtain ⟨opening, text, rfl, form, spelled⟩ := List.map_eq_cons_iff.1 spelled
      obtain ⟨closing, text, rfl, ending, empty⟩ := List.map_eq_cons_iff.1 spelled
      obtain rfl := List.map_eq_nil_iff.1 empty
      rw [List.cons_append, List.cons_append]
      refine readPrimary_call shape form ?_
      rw [List.cons_append, readArguments, current, if_pos ending]
      rfl
  | cons row rows =>
      obtain ⟨title, text, rfl, shape, spelled⟩ := List.map_eq_cons_iff.1 spelled
      obtain ⟨opening, text, rfl, form, spelled⟩ := List.map_eq_cons_iff.1 spelled
      obtain ⟨front, back, rfl, spelledFront, ending⟩ := List.map_eq_append_iff.1 spelled
      obtain ⟨inner, more, rfl, spelledInner, spelledMore⟩ :=
        List.map_eq_append_iff.1 spelledFront
      obtain ⟨closing, none, rfl, closed, empty⟩ := List.map_eq_cons_iff.1 ending
      obtain rfl := List.map_eq_nil_iff.1 empty
      simp only [called, List.length_append, List.length_cons] at enough
      rw [List.cons_append, List.cons_append]
      refine readPrimary_call shape form ?_
      rw [List.append_assoc, List.append_assoc, List.singleton_append]
      exact readArguments_of_reads each (by omega) (by omega) spelledInner spelledMore closed

/-- A row of tokens is read as a step when no predicate stands behind it. -/
def ReadsStep (tokens : List Token) (step : Step Expression) : Prop :=
  ∀ levels, tokens.length ≤ levels → ∀ text rest : List Lexeme,
    text.map Lexeme.token = tokens → strength (current rest) ≤ 8 →
    readStep (readExpression levels) (text ++ rest) = .ok (step, rest)

/-- The tokens of a node test. -/
inductive Tested : NodeTest → List Token → Prop
  | any : Tested .any [.star]
  | name (name : String) : Tested (.name name) [.name name]
  | node : Tested .node [.nodeType "node", .leftParen, .rightParen]

theorem readTest_of_tested {test : NodeTest} {tokens : List Token} (tested : Tested test tokens)
    {text rest : List Lexeme} (spelled : text.map Lexeme.token = tokens) :
    readTest (text ++ rest) = .ok (test, rest) := by
  cases tested with
  | any =>
      obtain ⟨star, text, rfl, shape, empty⟩ := List.map_eq_cons_iff.1 spelled
      obtain rfl := List.map_eq_nil_iff.1 empty
      simp [readTest, current, shape]
  | name name =>
      obtain ⟨lexeme, text, rfl, shape, empty⟩ := List.map_eq_cons_iff.1 spelled
      obtain rfl := List.map_eq_nil_iff.1 empty
      simp [readTest, current, shape]
  | node =>
      obtain ⟨kind, text, rfl, shape, spelled⟩ := List.map_eq_cons_iff.1 spelled
      obtain ⟨opening, text, rfl, form, spelled⟩ := List.map_eq_cons_iff.1 spelled
      obtain ⟨closing, text, rfl, ending, empty⟩ := List.map_eq_cons_iff.1 spelled
      obtain rfl := List.map_eq_nil_iff.1 empty
      rw [List.cons_append, readTest, current, shape]
      dsimp only
      rw [List.drop_one, List.tail_cons, List.cons_append, Reads.expect_cons form]
      change (if current (closing :: rest) = .rightParen then _ else _) = _
      rw [current, if_pos ending]
      rfl

/-- Behind an axis stand a node test and predicates. -/
theorem ReadsStep.axis (axis : Axis) {test : NodeTest} {tokens : List Token}
    (tested : Tested test tokens) {rows : Rows} (each : ∀ row ∈ rows, Reads .or row.1 row.2) :
    ReadsStep (.axis axis.name :: .doubleColon :: tokens ++ bracketed rows)
      ⟨axis, test, rows.map Prod.snd⟩ := by
  intro levels enough text rest spelled weak
  obtain ⟨title, text, rfl, shape, spelled⟩ := List.map_eq_cons_iff.1 spelled
  obtain ⟨colons, text, rfl, form, spelled⟩ := List.map_eq_cons_iff.1 spelled
  obtain ⟨kind, predicates, rfl, spelledKind, spelledPredicates⟩ := List.map_eq_append_iff.1 spelled
  simp only [List.length_append, List.length_cons] at enough
  have axes : readAxis (title :: colons :: (kind ++ predicates) ++ rest) =
      .ok (axis, kind ++ (predicates ++ rest)) := by
    rw [readAxis, List.cons_append, current, shape]
    dsimp only
    rw [Axis.ofName?_name]
    dsimp only
    rw [List.drop_one, List.tail_cons, List.cons_append, Reads.expect_cons form, List.append_assoc]
    rfl
  have kept : readPredicates (readExpression levels) (predicates ++ rest).length
      (predicates ++ rest) = .ok (rows.map Prod.snd, rest) :=
    readPredicates_of_reads each (by omega) spelledPredicates (by simp) weak
  unfold readStep
  split
  · rename_i begins
    rw [List.cons_append, current, shape] at begins
    cases begins
  · rename_i begins
    rw [List.cons_append, current, shape] at begins
    cases begins
  · rw [axes]
    change (readTest (kind ++ (predicates ++ rest)) >>= _) = _
    rw [readTest_of_tested tested spelledKind]
    change (readPredicates _ _ (predicates ++ rest) >>= _) = _
    rw [kept]
    rfl

/-- An at sign before a name is a step along the attributes. -/
theorem ReadsStep.attribute (name : String) :
    ReadsStep [.at, .name name] ⟨.attribute, .name name, []⟩ := by
  intro levels enough text rest spelled weak
  obtain ⟨sign, text, rfl, shape, spelled⟩ := List.map_eq_cons_iff.1 spelled
  obtain ⟨title, text, rfl, form, empty⟩ := List.map_eq_cons_iff.1 spelled
  obtain rfl := List.map_eq_nil_iff.1 empty
  have axes : readAxis (sign :: title :: rest) = .ok (.attribute, title :: rest) := by
    rw [readAxis, current, shape]
    rfl
  have test : readTest (title :: rest) = .ok (.name name, rest) := by
    rw [readTest, current, form]
    rfl
  change readStep _ (sign :: title :: rest) = _
  unfold readStep
  split
  · rename_i begins
    rw [current, shape] at begins
    cases begins
  · rename_i begins
    rw [current, shape] at begins
    cases begins
  · rw [axes]
    change (readTest (title :: rest) >>= _) = _
    rw [test]
    change (readPredicates _ _ rest >>= _) = _
    rw [Reads.readPredicates_of_le weak]
    rfl

/-- A step that begins with an axis or an at sign is an expression. -/
theorem Reads.step {tokens : List Token} {step : Step Expression} (reads : ReadsStep tokens step)
    (begins : tokens.head? = some .at ∨ ∃ name, tokens.head? = some (.axis name)) :
    Reads .primary tokens (.step step) := by
  apply of_readAt rfl (by decide)
  intro levels enough text rest spelled weak
  have read := reads levels enough text rest spelled weak
  have expression : readStepExpression (readExpression levels) (text ++ rest) =
      .ok (.step step, rest) := by
    rw [readStepExpression, read]
    rfl
  change readPrimary _ _ = _
  rw [← expression]
  cases text with
  | nil =>
      rw [← spelled] at begins
      simp at begins
  | cons lexeme text =>
      rw [← spelled] at begins
      have shape : lexeme.token = .at ∨ ∃ name, lexeme.token = .axis name := by simpa using begins
      rcases shape with shape | ⟨name, shape⟩ <;>
        rw [List.cons_append, readPrimary, current, shape]

/-- A slash leads from a path on along a step. -/
theorem Reads.path {step : Step Expression} (base : Reads .path left first)
    (reads : ReadsStep right step) : Reads .path (left ++ .slash :: right) (.path first step) := by
  intro levels enough text rest spelled weak
  obtain ⟨front, back, rfl, spelledLeft, spelledBack⟩ := List.map_eq_append_iff.1 spelled
  obtain ⟨sign, back, rfl, shape, spelledRight⟩ := List.map_eq_cons_iff.1 spelledBack
  rw [List.length_append, List.length_cons] at enough
  have strong : strength (current (sign :: back ++ rest)) ≤ Level.path.rank := by
    rw [List.cons_append, current, shape]
    decide
  obtain ⟨moves, many, read⟩ := base levels (by omega) front (sign :: back ++ rest) spelledLeft
    strong
  have stepRead := reads levels (by omega) back rest spelledRight weak
  rw [List.cons_append, List.length_cons, List.length_append] at many
  obtain ⟨moves, rfl⟩ : ∃ fewer, moves = fewer + 1 := ⟨moves - 1, by omega⟩
  refine ⟨moves, by omega, ?_⟩
  rw [List.append_assoc, read]
  change chainFrom pathOperator? _ (moves + 1) first (sign :: (back ++ rest)) =
    chainFrom pathOperator? _ moves (.path first step) rest
  rw [chainFrom, current, shape]
  change (readStep _ (back ++ rest) >>= _) = _
  rw [stepRead]
  rfl

section Steps

variable {axis : Axis} {test : NodeTest} {title colons : Lexeme} {text behind rest : List Lexeme}

/-- A node test begins with a star, a name or the name of a kind of node. -/
theorem current_of_readTest (read : readTest text = .ok (test, rest)) :
    current text = .star ∨ (∃ name, current text = .name name) ∨
      ∃ kind, current text = .nodeType kind := by
  unfold readTest at read
  split at read
  · exact .inl ‹_›
  · exact .inr (.inl ⟨_, ‹_›⟩)
  · exact .inr (.inr ⟨_, ‹_›⟩)
  · cases read

/-- A step without predicates is an axis and a test. -/
theorem readStep_plain (along : readAxis text = .ok (axis, behind))
    (tested : readTest behind = .ok (test, rest))
    (noDots : current text ≠ .dot ∧ current text ≠ .doubleDot)
    (ends : strength (current rest) ≤ 8) :
    readStep nested text = .ok (⟨axis, test, []⟩, rest) := by
  unfold readStep
  split
  · exact absurd ‹_› noDots.1
  · exact absurd ‹_› noDots.2
  · rw [along]
    change (readTest behind >>= _) = _
    rw [tested]
    change (readPredicates _ _ rest >>= _) = _
    rw [Reads.readPredicates_of_le ends]
    rfl

/-- Without an axis, a step leads to the children. -/
theorem readStep_child (tested : readTest text = .ok (test, rest))
    (ends : strength (current rest) ≤ 8) :
    readStep nested text = .ok (⟨.child, test, []⟩, rest) := by
  apply readStep_plain _ tested _ ends
  all_goals
    rcases current_of_readTest tested with same | ⟨_, same⟩ | ⟨_, same⟩ <;> simp [readAxis, same]

theorem readStep_axis (shape : title.token = .axis axis.name) (form : colons.token = .doubleColon)
    (tested : readTest text = .ok (test, rest)) (ends : strength (current rest) ≤ 8) :
    readStep nested (title :: colons :: text) = .ok (⟨axis, test, []⟩, rest) := by
  apply readStep_plain _ tested _ ends
  · rw [readAxis, current, shape]
    dsimp only
    rw [Axis.ofName?_name]
    dsimp only
    rw [List.drop_one, List.tail_cons, Reads.expect_cons form]
    rfl
  · simp [current, shape]

/-- A test alone is a step to the children. -/
theorem Reads.childStep {tokens : List Token} (tested : Tested test tokens) :
    Reads .primary tokens (.step ⟨.child, test, []⟩) := by
  apply of_readAt rfl (by decide)
  intro levels enough text rest spelled weak
  have read : readTest (text ++ rest) = .ok (test, rest) := readTest_of_tested tested spelled
  have step : readStepExpression (readExpression levels) (text ++ rest) =
      .ok (.step ⟨.child, test, []⟩, rest) := by
    rw [readStepExpression, readStep_child read weak]
    rfl
  change readPrimary _ _ = _
  rw [← step]
  cases tested with
  | any =>
      obtain ⟨star, text, rfl, shape, -⟩ := List.map_eq_cons_iff.1 spelled
      rw [List.cons_append, readPrimary, current, shape]
  | name name =>
      obtain ⟨title, text, rfl, shape, empty⟩ := List.map_eq_cons_iff.1 spelled
      obtain rfl := List.map_eq_nil_iff.1 empty
      -- a name is a call only before a parenthesis, which ties more closely than a step
      have noCall : current rest ≠ .leftParen := by
        intro opening
        rw [opening] at weak
        exact absurd weak (by decide)
      rw [List.cons_append, readPrimary, current, shape]
      dsimp only
      rw [List.drop_one, List.tail_cons, List.nil_append, if_neg noCall]
  | node =>
      obtain ⟨kind, text, rfl, shape, -⟩ := List.map_eq_cons_iff.1 spelled
      rw [List.cons_append, readPrimary, current, shape]

end Steps

/-- A whole row that is read as a loose expression is the expression. -/
theorem Reads.whole (reads : Reads .or tokens value) {text : List Lexeme}
    (spelled : text.map Lexeme.token = tokens) : readWhole text = .ok value := by
  have count : text.length = tokens.length := by rw [← spelled, List.length_map]
  have read : readExpression (text.length + 1) (text ++ []) = .ok (value, []) :=
    reads.inside (by omega) spelled rfl
  rw [List.append_nil] at read
  rw [readWhole, read]
  rfl

end ElementQuery.Path

/-
This file shows that the strict reader takes the same compound from a text when more text follows, as long
as what follows begins with a character that ends a compound.
-/

import ElementQuery.Proofs.Results
import ElementQuery.Proofs.Text.Search
import ElementQuery.Selector.Reader

namespace ElementQuery.Selector

/-- Behind a compound stands a comma, a blank or the sign of a combinator. -/
def separates (c : Char) : Bool :=
  c == ',' || c == '>' || c == '+' || c == '~' || Text.isAsciiBlank c

/-- A text that may follow a compound is empty or begins with a separating character. -/
def Separated (text : List Char) : Prop := ∀ c ∈ text.head?, separates c = true

/-- No separating character goes on with a name, an item, an argument or a compound. -/
theorem apart_of_separates {c : Char} (separating : separates c = true) :
    isNameChar c = false ∧ c ∉ ['*', '#', '.', '[', ':', '('] := by
  simp only [separates, Text.isAsciiBlank, Bool.or_eq_true, beq_iff_eq] at separating
  rcases separating with (((rfl | rfl) | rfl) | rfl) | (((rfl | rfl) | rfl) | rfl) | rfl <;> decide

theorem isNameStart_of_isNameChar {c : Char} (other : isNameChar c = false) : isNameStart c = false :=
  (Bool.or_eq_false_iff.1 other).1

/-- From a text a reader takes a value and leaves a rest. When more text follows, it takes the same value
and leaves more; what follows has to be separated only where nothing was left. -/
structure Carries {A : Type} (reader : List Char → Except Fault (A × List Char)) (text : List Char)
    (value : A) (rest : List Char) : Prop where
  shorter : rest.length ≤ text.length
  carries : ∀ more, (rest = [] → Separated more) → reader (text ++ more) = .ok (value, rest ++ more)

variable {text middle rest more : List Char}

/-- Where something is left at last, something was left before. -/
theorem ne_nil_before (shorter : rest.length ≤ middle.length) (left : rest ≠ []) : middle ≠ [] := by
  rintro rfl
  exact left (List.length_eq_zero_iff.1 (Nat.le_zero.1 shorter))

/-- Where nothing was left before, nothing is left at last. -/
theorem separated_before (shorter : rest.length ≤ middle.length) (ends : rest = [] → Separated more) :
    middle = [] → Separated more := by
  rintro rfl
  exact ends (List.length_eq_zero_iff.1 (Nat.le_zero.1 shorter))

section Characters

variable {c : Char} {name : String}

theorem skipBlanks_more (left : skipBlanks text ≠ []) :
    skipBlanks (text ++ more) = skipBlanks text ++ more :=
  (Text.span_append fun empty => absurd empty left).2

theorem length_skipBlanks_le (text : List Char) : (skipBlanks text).length ≤ text.length :=
  Text.length_dropWhile_le _ _

theorem expect_eq_ok : expect c text = .ok rest ↔ text = c :: rest := by
  cases text with
  | nil => simp [expect]
  | cons d text => by_cases same : d = c <;> simp [expect, same]

theorem length_lt_of_expect (expected : expect c (skipBlanks text) = .ok rest) :
    rest.length < text.length := by
  have shorter := length_skipBlanks_le text
  rwa [expect_eq_ok.1 expected, List.length_cons] at shorter

/-- A character behind blanks stays behind them. -/
theorem expect_more (expected : expect c (skipBlanks text) = .ok rest) :
    expect c (skipBlanks (text ++ more)) = .ok (rest ++ more) := by
  have shape := expect_eq_ok.1 expected
  rw [skipBlanks_more (by simp [shape]), shape]
  exact expect_eq_ok.2 rfl

theorem carries_readName (read : readName text = .ok (name, rest)) :
    Carries readName text name rest := by
  unfold readName at read
  dsimp only at read
  split at read
  · cases read
  · rename_i full
    obtain ⟨rfl, rfl⟩ := Prod.mk.inj (Except.ok.inj read)
    refine ⟨Text.length_dropWhile_le _ _, fun more ends => ?_⟩
    obtain ⟨taken, left⟩ := Text.span_append fun empty c first =>
      (apart_of_separates (ends empty c first)).1
    simp only [readName, taken, left, if_neg full]

theorem carries_readIdentifier (read : readIdentifier text = .ok (name, rest)) :
    Carries readIdentifier text name rest ∧ text ≠ [] := by
  unfold readIdentifier at read
  split at read
  · rename_i opens
    have inner := carries_readName read
    cases text with
    | nil => cases opens
    | cons c text =>
        refine ⟨⟨inner.shorter, fun more ends => ?_⟩, List.cons_ne_nil c text⟩
        rw [← inner.carries more ends, readIdentifier]
        exact if_pos opens
  · cases read

end Characters

section Attributes

variable {test : AttributeTest} {value : String}

theorem carries_readQuoted {quote : Char} (read : readQuoted quote text = .ok (value, rest)) :
    Carries (readQuoted quote) text value rest := by
  unfold readQuoted at read
  split at read
  · cases read
  · rename_i last tail shape
    obtain ⟨rfl, rfl⟩ := Prod.mk.inj (Except.ok.inj read)
    have shorter := Text.length_dropWhile_le (· != quote) text
    rw [shape, List.length_cons] at shorter
    refine ⟨by omega, fun more _ => ?_⟩
    obtain ⟨taken, left⟩ := @Text.span_append text (· != quote) more (by simp [shape])
    rw [readQuoted, taken, left, shape]
    rfl

theorem carries_readValue (read : readValue text = .ok (value, rest)) :
    Carries readValue text value rest ∧ text ≠ [] := by
  unfold readValue at read
  split at read
  · have inner := carries_readQuoted read
    exact ⟨⟨Nat.le_succ_of_le inner.shorter, inner.carries⟩, List.cons_ne_nil _ _⟩
  · have inner := carries_readQuoted read
    exact ⟨⟨Nat.le_succ_of_le inner.shorter, inner.carries⟩, List.cons_ne_nil _ _⟩
  · rename_i double single
    obtain ⟨inner, full⟩ := carries_readIdentifier read
    refine ⟨⟨inner.shorter, fun more ends => ?_⟩, full⟩
    obtain ⟨c, text, rfl⟩ := List.exists_cons_of_ne_nil full
    rw [← inner.carries more ends, List.cons_append, readValue]
    · exact fun tail same => double text (by rw [(List.cons.inj same).1])
    · exact fun tail same => single text (by rw [(List.cons.inj same).1])

theorem carries_readComparison {make : String → AttributeTest}
    (read : readComparison make text = .ok (test, rest)) :
    Carries (readComparison make) text test rest := by
  obtain ⟨behind, equals, read⟩ := bind_eq_ok.1 read
  obtain ⟨⟨value, middle⟩, found, read⟩ := bind_eq_ok.1 read
  obtain ⟨last, closed, read⟩ := bind_eq_ok.1 read
  obtain ⟨rfl, rfl⟩ := Prod.mk.inj (pure_eq_ok.1 read)
  obtain rfl := expect_eq_ok.1 equals
  obtain ⟨inner, full⟩ := carries_readValue found
  have skipped := length_skipBlanks_le behind
  have taken := inner.shorter
  have shorter := length_lt_of_expect closed
  refine ⟨by rw [List.length_cons]; omega, fun more ends => ?_⟩
  have opened : expect '=' ('=' :: behind ++ more) = .ok (behind ++ more) := rfl
  have valued : readValue (skipBlanks (behind ++ more)) = .ok (value, middle ++ more) := by
    rw [skipBlanks_more full]
    exact inner.carries more (separated_before (Nat.le_of_lt shorter) ends)
  rw [readComparison, opened]
  change (readValue (skipBlanks (behind ++ more)) >>= _) = _
  rw [valued]
  change (expect ']' (skipBlanks (middle ++ more)) >>= _) = _
  rw [expect_more closed]
  rfl

/-- Behind the name of an attribute, the first character chooses what is asked of it. -/
def readTest (name : String) : List Char → Except Fault (AttributeTest × List Char)
  | [] => .error (.unexpected [])
  | c :: rest =>
      if c = ']' then return (.exists name, rest)
      else if c = '=' then readComparison (.equals name) (c :: rest)
      else match comparison name c with
        | some make => readComparison make rest
        | none => .error (.unexpected (c :: rest))

theorem readAttribute_eq (text : List Char) : readAttribute text = (do
    let (name, rest) ← readIdentifier (skipBlanks text)
    readTest (Text.lower name) (skipBlanks rest)) :=
  rfl

theorem carries_readTest {name : String} (read : readTest name text = .ok (test, rest)) :
    Carries (readTest name) text test rest ∧ text ≠ [] := by
  cases text with
  | nil => cases read
  | cons c text =>
      refine ⟨?_, List.cons_ne_nil c text⟩
      rw [readTest] at read
      by_cases closes : c = ']'
      · rw [if_pos closes] at read
        obtain ⟨rfl, rfl⟩ := Prod.mk.inj (pure_eq_ok.1 read)
        refine ⟨Nat.le_succ _, fun more _ => ?_⟩
        rw [List.cons_append, readTest, if_pos closes]
        rfl
      rw [if_neg closes] at read
      by_cases equals : c = '='
      · rw [if_pos equals] at read
        have compared := carries_readComparison read
        refine ⟨compared.shorter, fun more ends => ?_⟩
        rw [List.cons_append, readTest, if_neg closes, if_pos equals]
        exact compared.carries more ends
      rw [if_neg equals] at read
      cases known : comparison name c with
      | none =>
          rw [known] at read
          cases read
      | some make =>
          rw [known] at read
          have compared := carries_readComparison read
          refine ⟨Nat.le_succ_of_le compared.shorter, fun more ends => ?_⟩
          rw [List.cons_append, readTest, if_neg closes, if_neg equals, known]
          exact compared.carries more ends

theorem carries_readAttribute (read : readAttribute text = .ok (test, rest)) :
    Carries readAttribute text test rest := by
  rw [readAttribute_eq] at read
  obtain ⟨⟨name, middle⟩, named, read⟩ := bind_eq_ok.1 read
  obtain ⟨inner, full⟩ := carries_readIdentifier named
  obtain ⟨asked, left⟩ := carries_readTest read
  have skipped := length_skipBlanks_le text
  have remaining := length_skipBlanks_le middle
  have taken := inner.shorter
  have shorter := asked.shorter
  refine ⟨by omega, fun more ends => ?_⟩
  rw [readAttribute_eq, skipBlanks_more full,
    inner.carries more (separated_before (by omega) ends)]
  change readTest _ (skipBlanks (middle ++ more)) = _
  rw [skipBlanks_more left]
  exact asked.carries more ends

end Attributes

section Items

variable {limit : Nat} {name : String} {simple : Simple}
  {negated longer : List Char → Except Fault (List Compound × List Char)}

/-- The argument of a counting pseudo-class ends inside the text. -/
theorem carries_readProgression {progression : Progression} (left : rest ≠ [])
    (read : readProgression text = .ok (progression, rest)) :
    Carries readProgression text progression rest := by
  unfold readProgression at read
  dsimp only at read
  split at read
  · rename_i known
    obtain ⟨rfl, rfl⟩ := Prod.mk.inj (Except.ok.inj read)
    refine ⟨Text.length_dropWhile_le _ _, fun more _ => ?_⟩
    obtain ⟨taken, behind⟩ := @Text.span_append text (· != ')') more fun empty => absurd empty left
    simp only [readProgression, taken, behind, known]
  · cases read

/-- What a reader takes of the texts up to a length is carried over to another one. -/
def CarriesUpTo {A : Type} (limit : Nat)
    (reader longer : List Char → Except Fault (A × List Char)) : Prop :=
  ∀ {text value rest}, text.length ≤ limit → reader text = .ok (value, rest) →
    Carries longer text value rest

/-- What a reader takes from inside the texts up to a length is carried over to another one. -/
def CarriesInside {A : Type} (limit : Nat)
    (reader longer : List Char → Except Fault (A × List Char)) : Prop :=
  ∀ {text value rest}, text.length ≤ limit → rest ≠ [] → reader text = .ok (value, rest) →
    Carries longer text value rest

theorem carries_readArgument (inside : CarriesInside limit negated longer)
    (within : text.length ≤ limit) (left : rest ≠ [])
    (read : readArgument negated name text = .ok (simple, rest)) :
    Carries (readArgument longer name) text simple rest := by
  unfold readArgument at read
  split at read
  · rename_i same
    obtain ⟨⟨compounds, middle⟩, found, read⟩ := bind_eq_ok.1 read
    obtain ⟨rfl, rfl⟩ := Prod.mk.inj (pure_eq_ok.1 read)
    have inner := inside within left found
    refine ⟨inner.shorter, fun more ends => ?_⟩
    rw [readArgument, if_pos same, inner.carries more ends]
    rfl
  · rename_i other
    split at read
    · rename_i side kin known
      obtain ⟨⟨progression, middle⟩, found, read⟩ := bind_eq_ok.1 read
      obtain ⟨rfl, rfl⟩ := Prod.mk.inj (pure_eq_ok.1 read)
      have inner := carries_readProgression left found
      refine ⟨inner.shorter, fun more ends => ?_⟩
      rw [readArgument, if_neg other, known]
      dsimp only
      rw [inner.carries more ends]
      rfl
    · cases read

/-- Behind the opening parenthesis, blanks may stand around the argument of a pseudo-class. -/
def readArgued (readNegated : List Char → Except Fault (List Compound × List Char)) (name : String)
    (text : List Char) : Except Fault (Simple × List Char) := do
  let (simple, rest) ← readArgument readNegated name (skipBlanks text)
  let rest ← expect ')' (skipBlanks rest)
  return (simple, rest)

theorem carries_readArgued (inside : CarriesInside limit negated longer)
    (within : text.length ≤ limit) (read : readArgued negated name text = .ok (simple, rest)) :
    Carries (readArgued longer name) text simple rest := by
  obtain ⟨⟨simple, middle⟩, found, read⟩ := bind_eq_ok.1 read
  obtain ⟨last, closed, read⟩ := bind_eq_ok.1 read
  obtain ⟨rfl, rfl⟩ := Prod.mk.inj (pure_eq_ok.1 read)
  have skipped := length_skipBlanks_le text
  have behind := length_lt_of_expect closed
  have left : middle ≠ [] := List.ne_nil_of_length_pos (Nat.zero_lt_of_lt behind)
  have inner := carries_readArgument inside (by omega) left found
  have shorter := inner.shorter
  refine ⟨by omega, fun more ends => ?_⟩
  rw [readArgued, skipBlanks_more (ne_nil_before shorter left),
    inner.carries more fun empty => absurd empty left]
  change (expect ')' (skipBlanks (middle ++ more)) >>= _) = _
  rw [expect_more closed]
  rfl

theorem carries_readPseudo (inside : CarriesInside limit negated longer)
    (within : text.length ≤ limit) (read : readPseudo negated text = .ok (simple, rest)) :
    Carries (readPseudo longer) text simple rest := by
  unfold readPseudo at read
  split at read
  · rename_i doubled
    obtain ⟨text, rfl⟩ := List.head?_eq_some_iff.1 doubled
    obtain ⟨⟨name, middle⟩, named, read⟩ := bind_eq_ok.1 read
    obtain ⟨rfl, rfl⟩ := Prod.mk.inj (pure_eq_ok.1 read)
    rw [List.drop_one, List.tail_cons] at named
    obtain ⟨inner, -⟩ := carries_readIdentifier named
    refine ⟨Nat.le_succ_of_le inner.shorter, fun more ends => ?_⟩
    have still : (':' :: text ++ more).head? = some ':' := rfl
    rw [readPseudo, if_pos still]
    change (readIdentifier (text ++ more) >>= _) = _
    rw [inner.carries more ends]
    rfl
  · rename_i single
    obtain ⟨⟨name, middle⟩, named, read⟩ := bind_eq_ok.1 read
    dsimp only at read
    obtain ⟨inner, full⟩ := carries_readIdentifier named
    have taken := inner.shorter
    have other (more : List Char) : (text ++ more).head? ≠ some ':' := by
      obtain ⟨c, tail, rfl⟩ := List.exists_cons_of_ne_nil full
      exact single
    split at read
    · rename_i opens
      obtain ⟨middle, rfl⟩ := List.head?_eq_some_iff.1 opens
      change readArgued negated (Text.lower name) middle = _ at read
      rw [List.length_cons] at taken
      have argued := carries_readArgued inside (by omega) read
      have shorter := argued.shorter
      refine ⟨by omega, fun more ends => ?_⟩
      rw [readPseudo, if_neg (other more), inner.carries more (by simp)]
      exact argued.carries more ends
    · rename_i bare
      obtain ⟨plain, known, read⟩ := bind_eq_ok.1 read
      obtain ⟨rfl, rfl⟩ := Prod.mk.inj (pure_eq_ok.1 read)
      refine ⟨taken, fun more ends => ?_⟩
      have noArgument : (middle ++ more).head? ≠ some '(' := by
        cases middle with
        | cons c middle => exact bare
        | nil =>
            intro opens
            exact (apart_of_separates (ends rfl '(' opens)).2 (by decide)
      rw [readPseudo, if_neg (other more), inner.carries more ends]
      dsimp only [bind, Except.bind]
      rw [if_neg noArgument, known]
      rfl

/-- Behind its sign, a simple selector is made of what a reader takes. -/
theorem carries_behind {A : Type} {reader other : List Char → Except Fault (A × List Char)}
    (make : A → Simple)
    (each : ∀ {value rest}, reader text = .ok (value, rest) → Carries other text value rest)
    (read : (reader text >>= fun found => pure (some (make found.1, found.2))) =
      Except.ok (some (simple, rest))) :
    rest.length ≤ text.length ∧ ∀ more, (rest = [] → Separated more) →
      (other (text ++ more) >>= fun found => pure (some (make found.1, found.2))) =
        Except.ok (some (simple, rest ++ more)) := by
  obtain ⟨⟨value, middle⟩, found, read⟩ := bind_eq_ok.1 read
  obtain ⟨rfl, rfl⟩ := Prod.mk.inj (Option.some.inj (pure_eq_ok.1 read))
  refine ⟨(each found).shorter, fun more ends => ?_⟩
  rw [(each found).carries more ends]
  rfl

theorem carries_readSimple? (inside : CarriesInside limit negated longer)
    (within : text.length ≤ limit + 1)
    (read : readSimple? negated text = .ok (some (simple, rest))) :
    rest.length < text.length ∧ ∀ more, (rest = [] → Separated more) →
      readSimple? longer (text ++ more) = .ok (some (simple, rest ++ more)) := by
  unfold readSimple? at read
  split at read
  · obtain ⟨shorter, carries⟩ := carries_behind .id carries_readName read
    exact ⟨Nat.lt_succ_of_le shorter, carries⟩
  · obtain ⟨shorter, carries⟩ := carries_behind .hasClass
      (fun found => (carries_readIdentifier found).1) read
    exact ⟨Nat.lt_succ_of_le shorter, carries⟩
  · obtain ⟨shorter, carries⟩ := carries_behind .attribute carries_readAttribute read
    exact ⟨Nat.lt_succ_of_le shorter, carries⟩
  · obtain ⟨shorter, carries⟩ := carries_behind id
      (carries_readPseudo inside (Nat.le_of_succ_le_succ within)) read
    exact ⟨Nat.lt_succ_of_le shorter, carries⟩
  · cases read

/-- No simple selector begins with a separating character. -/
theorem readSimple?_of_separated (separated : Separated more) :
    readSimple? longer more = .ok none := by
  cases more with
  | nil => rfl
  | cons c more =>
      have other := (apart_of_separates (separated c rfl)).2
      unfold readSimple?
      split
      all_goals first
        | rfl
        | rename_i shape
          rw [(List.cons.inj shape).1] at other
          exact absurd other (by decide)

/-- Where no simple selector begins, none begins when more text follows. -/
theorem readSimple?_none (read : readSimple? negated text = .ok none)
    (ends : text = [] → Separated more) : readSimple? longer (text ++ more) = .ok none := by
  unfold readSimple? at read
  split at read
  case h_5 noId noClass noAttribute noPseudo =>
    cases text with
    | nil => exact readSimple?_of_separated (ends rfl)
    | cons c text =>
        rw [List.cons_append, readSimple?]
        · exact fun tail same => noId text (by rw [(List.cons.inj same).1])
        · exact fun tail same => noClass text (by rw [(List.cons.inj same).1])
        · exact fun tail same => noAttribute text (by rw [(List.cons.inj same).1])
        · exact fun tail same => noPseudo text (by rw [(List.cons.inj same).1])
  all_goals
    obtain ⟨found, -, read⟩ := bind_eq_ok.1 read
    cases read

end Items

section Compounds

variable {limit steps larger : Nat} {tag compound : Compound}
  {reader longer : List Char → Except Fault (Compound × List Char)}

theorem carries_readTag (read : readTag text = .ok (tag, rest)) : Carries readTag text tag rest := by
  unfold readTag at read
  split at read
  · obtain ⟨rfl, rfl⟩ := Prod.mk.inj (Except.ok.inj read)
    exact ⟨Nat.le_succ _, fun more _ => rfl⟩
  · rename_i c text starless
    split at read
    · rename_i opens
      obtain ⟨⟨name, middle⟩, named, read⟩ := bind_eq_ok.1 read
      obtain ⟨rfl, rfl⟩ := Prod.mk.inj (pure_eq_ok.1 read)
      obtain ⟨inner, -⟩ := carries_readIdentifier named
      refine ⟨inner.shorter, fun more ends => ?_⟩
      rw [List.cons_append, readTag, if_pos opens, ← List.cons_append, inner.carries more ends]
      · rfl
      · exact starless
    · rename_i closed
      obtain ⟨rfl, rfl⟩ := Prod.mk.inj (Except.ok.inj read)
      refine ⟨Nat.le_refl _, fun more _ => ?_⟩
      rw [List.cons_append, readTag, if_neg closed]
      exact starless
  · obtain ⟨rfl, rfl⟩ := Prod.mk.inj (Except.ok.inj read)
    refine ⟨Nat.le_refl _, fun more ends => ?_⟩
    cases more with
    | nil => rfl
    | cons c more =>
        obtain ⟨outside, other⟩ := apart_of_separates (ends rfl c rfl)
        rw [List.nil_append, readTag, isNameStart_of_isNameChar outside]
        · rfl
        · rintro rfl
          exact absurd other (by decide)

theorem carries_readCompoundWith (each : CarriesUpTo limit reader longer)
    (within : text.length ≤ limit) (read : readCompoundWith reader text = .ok (compound, rest)) :
    Carries (readCompoundWith longer) text compound rest := by
  obtain ⟨⟨tag, middle⟩, tagged, read⟩ := bind_eq_ok.1 read
  obtain ⟨⟨simples, last⟩, found, read⟩ := bind_eq_ok.1 read
  have front := carries_readTag tagged
  have taken := front.shorter
  have back := each (by omega) found
  have shorter := back.shorter
  dsimp only at read
  split at read
  · cases read
  · rename_i full
    obtain ⟨rfl, rfl⟩ := Prod.mk.inj (pure_eq_ok.1 read)
    refine ⟨by omega, fun more ends => ?_⟩
    rw [readCompoundWith, front.carries more (separated_before shorter ends)]
    change (longer (middle ++ more) >>= _) = _
    rw [back.carries more ends]
    exact if_neg full

/-- What is negated ends inside the text, at a parenthesis. -/
theorem carries_readCompounds (each : CarriesUpTo limit reader longer) (many : steps ≤ larger) :
    CarriesInside limit (readCompounds reader steps) (readCompounds longer larger) := by
  induction steps generalizing larger with
  | zero =>
      intro text compounds rest _ _ read
      cases read
  | succ steps inductionHypothesis =>
      obtain ⟨larger, rfl⟩ := Nat.exists_eq_add_one.2 (Nat.lt_of_lt_of_le (Nat.succ_pos _) many)
      intro text compounds rest within left read
      obtain ⟨⟨first, middle⟩, found, read⟩ := bind_eq_ok.1 read
      have front := each within found
      have taken := front.shorter
      have remaining := length_skipBlanks_le middle
      have begun (full : skipBlanks middle ≠ []) (more : List Char) :
          longer (text ++ more) = .ok (first, middle ++ more) ∧
            skipBlanks (middle ++ more) = skipBlanks middle ++ more := by
        refine ⟨front.carries more ?_, skipBlanks_more full⟩
        rintro rfl
        exact absurd rfl full
      dsimp only at read
      split at read
      · rename_i behind shape
        obtain ⟨⟨others, last⟩, further, read⟩ := bind_eq_ok.1 read
        obtain ⟨rfl, rfl⟩ := Prod.mk.inj (pure_eq_ok.1 read)
        have skipped := length_skipBlanks_le behind
        rw [shape, List.length_cons] at remaining
        have back := inductionHypothesis (Nat.le_of_succ_le_succ many) (by omega) left further
        have shorter := back.shorter
        have full : skipBlanks behind ≠ [] := ne_nil_before shorter left
        refine ⟨by omega, fun more ends => ?_⟩
        obtain ⟨again, comma⟩ := begun (by simp [shape]) more
        rw [readCompounds, again]
        dsimp only [bind, Except.bind]
        rw [comma, shape]
        change (readCompounds longer larger (skipBlanks (behind ++ more)) >>= _) = _
        rw [skipBlanks_more full, back.carries more ends]
        rfl
      · rename_i noComma
        obtain ⟨rfl, rfl⟩ := Prod.mk.inj (pure_eq_ok.1 read)
        refine ⟨by omega, fun more _ => ?_⟩
        obtain ⟨again, moved⟩ := begun left more
        obtain ⟨c, tail, shape⟩ := List.exists_cons_of_ne_nil left
        rw [readCompounds, again]
        dsimp only [bind, Except.bind]
        rw [moved, shape, List.cons_append]
        split
        · rename_i same
          exact absurd (by rw [shape, (List.cons.inj same).1]) (noComma tail)
        · rfl

theorem readSimples_of_separated (separated : Separated more) :
    readSimples larger more = .ok ([], more) := by
  cases larger with
  | zero => rfl
  | succ larger =>
      rw [readSimples, readSimple?_of_separated separated]
      rfl

/-- Simple selectors are carried over, by induction on the steps, which bound how deep negations stand
inside each other too. -/
theorem carries_readSimples (many : steps ≤ larger) :
    CarriesUpTo steps (readSimples steps) (readSimples larger) := by
  induction steps generalizing larger with
  | zero =>
      intro text simples rest within read
      obtain rfl := List.length_eq_zero_iff.1 (Nat.le_zero.1 within)
      obtain ⟨rfl, rfl⟩ := Prod.mk.inj (Except.ok.inj read)
      exact ⟨Nat.le_refl _, fun more ends => readSimples_of_separated (ends rfl)⟩
  | succ steps inductionHypothesis =>
      obtain ⟨larger, rfl⟩ := Nat.exists_eq_add_one.2 (Nat.lt_of_lt_of_le (Nat.succ_pos _) many)
      have fewer : steps ≤ larger := Nat.le_of_succ_le_succ many
      have inside : CarriesInside steps (readCompounds (readCompoundWith (readSimples steps)) steps)
          (readCompounds (readCompoundWith (readSimples larger)) larger) :=
        carries_readCompounds (carries_readCompoundWith (inductionHypothesis fewer)) fewer
      intro text simples rest within read
      obtain ⟨found, begun, read⟩ := bind_eq_ok.1 read
      cases found with
      | none =>
          obtain ⟨rfl, rfl⟩ := Prod.mk.inj (pure_eq_ok.1 read)
          refine ⟨Nat.le_refl _, fun more ends => ?_⟩
          rw [readSimples, readSimple?_none begun ends]
          rfl
      | some found =>
          obtain ⟨simple, middle⟩ := found
          obtain ⟨⟨others, last⟩, further, read⟩ := bind_eq_ok.1 read
          obtain ⟨rfl, rfl⟩ := Prod.mk.inj (pure_eq_ok.1 read)
          obtain ⟨taken, front⟩ := carries_readSimple? inside within begun
          have back := inductionHypothesis fewer (by omega) further
          have shorter := back.shorter
          refine ⟨by omega, fun more ends => ?_⟩
          rw [readSimples, front more (separated_before shorter ends)]
          change (readSimples larger (middle ++ more) >>= _) = _
          rw [back.carries more ends]
          rfl

/-- A compound is carried over, whatever brackets, quotes, arguments and negations it holds. -/
theorem carries_readCompound (read : readCompound text = .ok (compound, rest)) :
    Carries readCompound text compound rest := by
  have carried (more : List Char) :=
    @carries_readCompoundWith text rest (text.length + 1) compound (readSimples (text.length + 1))
      (readSimples ((text ++ more).length + 1))
      (carries_readSimples (by rw [List.length_append]; omega)) (Nat.le_succ _) read
  exact ⟨(carried []).shorter, fun more ends => (carried more).carries more ends⟩

end Compounds

end ElementQuery.Selector

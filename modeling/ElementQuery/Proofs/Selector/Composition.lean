/-
This file shows that the strict reader is compositional: a comma between two texts joins their lists of
selectors, and a combinator between the texts of two selectors joins them to one.
-/

import ElementQuery.Proofs.Selector.Continuation

namespace ElementQuery.Selector

/-- The text of a combinator without blanks around it. -/
def Combinator.text : Combinator → List Char
  | .descendant => [' ']
  | .child => ['>']
  | .nextSibling => ['+']
  | .laterSibling => ['~']

/-- The chain of a selector goes on along further links. -/
def Complex.onto (complex : Complex) (links : List (Combinator × Compound)) : Complex :=
  ⟨complex.subject, complex.chain ++ links⟩

variable {text rest more blanks : List Char} {combinator : Combinator} {compound : Compound}
  {complex last : Complex} {steps : Nat}

section Combinators

theorem Combinator.separated_text : Separated (combinator.text ++ more) := by
  intro c first
  cases combinator <;> cases first <;> rfl

/-- Blanks in front are skipped with those behind them. -/
theorem skipBlanks_blanks (blank : ∀ c ∈ blanks, Text.isAsciiBlank c = true) :
    skipBlanks (blanks ++ text) = skipBlanks text :=
  List.dropWhile_append_of_pos blank

/-- No compound begins with a separating character. -/
theorem readCompound_of_separated (separated : Separated text) :
    readCompound text = .error (.unexpected text) := by
  have tag : readTag text = .ok ([], text) :=
    (@carries_readTag [] [] [] rfl).carries text fun _ => separated
  rw [readCompound, readCompoundWith, tag]
  change (readSimples _ text >>= _) = _
  rw [readSimples_of_separated separated]
  rfl

theorem exists_of_readCompound (read : readCompound text = .ok (compound, rest)) :
    ∃ c tail, text = c :: tail ∧ separates c = false := by
  cases text with
  | nil =>
      rw [readCompound_of_separated (by simp [Separated])] at read
      cases read
  | cons c tail =>
      refine ⟨c, tail, rfl, Bool.eq_false_iff.2 fun separating => ?_⟩
      rw [readCompound_of_separated (by simpa [Separated] using separating)] at read
      cases read

/-- A text begins with a combinator and leaves a rest: behind a written sign stands a character other than a
comma, and behind blanks alone one that does not separate. -/
inductive Combines : Combinator → List Char → List Char → Prop
  | sign {combinator : Combinator} {text behind rest : List Char} {c : Char}
      (written : combinator ≠ .descendant) (shape : skipBlanks text = combinator.text ++ behind)
      (begins : skipBlanks behind = c :: rest) (noComma : c ≠ ',') :
      Combines combinator text (c :: rest)
  | blank {text rest : List Char} {c : Char} (blanks : text.head?.any Text.isAsciiBlank = true)
      (begins : skipBlanks text = c :: rest) (solid : separates c = false) :
      Combines .descendant text (c :: rest)

theorem afterCombinator_eq_ok : afterCombinator text = .ok rest ↔
    ∃ c tail, rest = c :: tail ∧ skipBlanks text = c :: tail ∧ c ≠ ',' := by
  unfold afterCombinator
  split
  · rename_i shape
    simp [shape]
  · rename_i shape
    simp [shape]
  · rename_i full noComma
    constructor
    · rintro ⟨rfl⟩
      obtain ⟨c, tail, shape⟩ := List.exists_cons_of_ne_nil full
      exact ⟨c, tail, shape, shape, fun same => noComma tail (by rw [shape, same])⟩
    · rintro ⟨c, tail, rfl, shape, -⟩
      rw [shape]

/-- Behind a written sign, the combinator of the sign is read. -/
theorem combines_of_sign {sign : Combinator} {behind : List Char} (written : sign ≠ .descendant)
    (shape : skipBlanks text = sign.text ++ behind)
    (read : (afterCombinator behind).map (fun rest => some (sign, rest)) =
      .ok (some (combinator, rest))) : Combines combinator text rest := by
  cases found : afterCombinator behind with
  | error fault =>
      rw [found] at read
      cases read
  | ok left =>
      rw [found] at read
      cases read
      obtain ⟨c, tail, rfl, begins, noComma⟩ := afterCombinator_eq_ok.1 found
      exact .sign written shape begins noComma

/-- What is read as a combinator combines. -/
theorem combines_of_readCombinator? (read : readCombinator? text = .ok (some (combinator, rest))) :
    Combines combinator text rest := by
  unfold readCombinator? at read
  split at read
  · cases read
  · cases read
  · exact combines_of_sign (by decide) ‹_› read
  · exact combines_of_sign (by decide) ‹_› read
  · exact combines_of_sign (by decide) ‹_› read
  · rename_i full noComma noChild noNext noLater
    split at read
    · rename_i blanks
      cases read
      obtain ⟨c, tail, shape⟩ := List.exists_cons_of_ne_nil full
      rw [shape]
      refine .blank blanks shape ?_
      have unblank := List.head?_dropWhile_not Text.isAsciiBlank text
      rw [show text.dropWhile Text.isAsciiBlank = c :: tail from shape] at unblank
      simp only [separates, Bool.or_eq_false_iff, beq_eq_false_iff_ne]
      refine ⟨⟨⟨⟨?_, ?_⟩, ?_⟩, ?_⟩, by simpa using unblank⟩
      · exact fun same => noComma tail (by rw [shape, same])
      · exact fun same => noChild tail (by rw [shape, same])
      · exact fun same => noNext tail (by rw [shape, same])
      · exact fun same => noLater tail (by rw [shape, same])
    · cases read

namespace Combines

/-- What combines is read as a combinator. -/
theorem read (combines : Combines combinator text rest) :
    readCombinator? text = .ok (some (combinator, rest)) := by
  cases combines with
  | @sign _ _ behind tail c written shape begins noComma =>
      have after : afterCombinator behind = .ok (c :: tail) :=
        afterCombinator_eq_ok.2 ⟨c, tail, rfl, begins, noComma⟩
      rw [readCombinator?, shape]
      cases combinator with
      | descendant => exact absurd rfl written
      | child | nextSibling | laterSibling =>
          change (afterCombinator behind).map _ = _
          rw [after]
          rfl
  | @blank _ tail c blanks begins solid =>
      unfold readCombinator?
      rw [begins]
      split
      · contradiction
      all_goals first
        | rw [if_pos blanks]
        | rename_i shape
          rw [(List.cons.inj shape).1] at solid
          exact absurd solid (by decide)

theorem shorter (combines : Combines combinator text rest) : rest.length < text.length := by
  have skipped := length_skipBlanks_le text
  cases combines with
  | @sign _ _ behind tail c written shape begins _ =>
      have remaining := length_skipBlanks_le behind
      have one : combinator.text.length = 1 := by cases combinator <;> rfl
      rw [shape, List.length_append, one] at skipped
      rw [begins] at remaining
      omega
  | @blank _ tail c blanks begins _ =>
      cases text with
      | nil => cases blanks
      | cons d text =>
          have dropped : skipBlanks (d :: text) = skipBlanks text :=
            List.dropWhile_cons_of_pos blanks
          have remaining := length_skipBlanks_le text
          rw [← dropped, begins] at remaining
          exact Nat.lt_succ_of_le remaining

theorem append (combines : Combines combinator text rest) (more : List Char) :
    Combines combinator (text ++ more) (rest ++ more) := by
  cases combines with
  | @sign _ _ behind tail c written shape begins noComma =>
      have full : skipBlanks text ≠ [] := by
        rw [shape]
        cases combinator <;> exact List.cons_ne_nil _ _
      apply sign written _ _ noComma
      · exact behind ++ more
      · rw [skipBlanks_more full, shape, List.append_assoc]
      · rw [skipBlanks_more (by simp [begins]), begins]
        rfl
  | @blank _ tail c blanks begins solid =>
      apply blank _ _ solid
      · cases text with
        | nil => cases blanks
        | cons d text => exact blanks
      · rw [skipBlanks_more (by simp [begins]), begins]
        rfl

/-- The text of a combinator combines across blanks. -/
theorem of_text {c : Char} (blank : ∀ d ∈ blanks, Text.isAsciiBlank d = true)
    (begins : skipBlanks text = c :: rest) (solid : separates c = false) :
    Combines combinator (blanks ++ (combinator.text ++ text)) (c :: rest) := by
  have noComma : c ≠ ',' := by
    rintro rfl
    exact absurd solid (by decide)
  have signed (written : combinator ≠ .descendant) :
      Combines combinator (blanks ++ (combinator.text ++ text)) (c :: rest) := by
    apply sign written _ begins noComma
    rw [skipBlanks_blanks blank]
    cases combinator with
    | descendant => exact absurd rfl written
    | child | nextSibling | laterSibling => exact List.dropWhile_cons_of_neg (by decide)
  cases combinator with
  | descendant =>
      apply Combines.blank _ _ solid
      · cases blanks with
        | nil => rfl
        | cons d blanks => exact blank d List.mem_cons_self
      · rw [skipBlanks_blanks blank, ← begins]
        exact List.dropWhile_cons_of_pos (by decide)
  | child | nextSibling | laterSibling => exact signed (by decide)

end Combines

end Combinators

section Chains

/-- Reading has come to a selector with blanks and a rest behind it, and the steps suffice for both. -/
def Reaches (reading : Except Fault (Complex × List Char)) (complex : Complex) (rest : List Char) :
    Prop :=
  ∃ blanks steps, (∀ c ∈ blanks, Text.isAsciiBlank c = true) ∧ (blanks ++ rest).length ≤ steps ∧
    reading = readChain steps complex (blanks ++ rest)

/-- Before the end or a comma, a selector is complete. -/
theorem Reaches.stop {reading : Except Fault (Complex × List Char)}
    (reaches : Reaches reading complex rest) (stops : rest = [] ∨ ∃ tail, rest = ',' :: tail) :
    reading = .ok (complex, rest) := by
  obtain ⟨blanks, steps, blank, enough, rfl⟩ := reaches
  have skipped : skipBlanks (blanks ++ rest) = rest := by
    rw [skipBlanks_blanks blank]
    rcases stops with rfl | ⟨tail, rfl⟩
    · rfl
    · exact List.dropWhile_cons_of_neg (by decide)
  have none : readCombinator? (blanks ++ rest) = .ok none := by
    rw [readCombinator?, skipped]
    rcases stops with rfl | ⟨tail, rfl⟩ <;> rfl
  cases steps with
  | zero =>
      have empty := List.length_eq_zero_iff.1 (Nat.le_zero.1 enough)
      obtain ⟨rfl, rfl⟩ := List.append_eq_nil_iff.1 empty
      rfl
  | succ steps =>
      rw [readChain, none]
      exact congrArg (fun rest => Except.ok (complex, rest)) skipped

/-- A combinator behind a selector makes the next compound the subject. -/
theorem Reaches.combine {reading : Except Fault (Complex × List Char)} {c : Char} {tail : List Char}
    (reaches : Reaches reading complex (combinator.text ++ text))
    (begins : skipBlanks text = c :: tail) (read : readCompound (c :: tail) = .ok (compound, rest)) :
    ∃ steps, rest.length ≤ steps ∧
      reading = readChain steps (complex.extend combinator compound) rest := by
  obtain ⟨blanks, steps, blank, enough, rfl⟩ := reaches
  obtain ⟨d, others, same, solid⟩ := exists_of_readCompound read
  obtain ⟨rfl, rfl⟩ := List.cons.inj same
  have combines := @Combines.of_text text tail blanks combinator c blank begins solid
  have shorter := combines.shorter
  have taken := (carries_readCompound read).shorter
  obtain ⟨steps, rfl⟩ := Nat.exists_eq_add_one.2 (by omega : 0 < steps)
  refine ⟨steps, by omega, ?_⟩
  rw [readChain, combines.read]
  change (readCompound (c :: tail) >>= _) = _
  rw [read]
  rfl

/-- When more text follows, a chain is read as before, up to the blanks at its end. -/
theorem reaches_readChain {larger : Nat} (read : readChain steps complex text = .ok (last, rest))
    (within : text.length ≤ steps) (enough : (text ++ more).length ≤ larger)
    (ends : rest = [] → Separated more) : rest.length ≤ text.length ∧
      Reaches (readChain larger complex (text ++ more)) last (rest ++ more) := by
  induction steps generalizing text complex larger with
  | zero =>
      obtain rfl := List.length_eq_zero_iff.1 (Nat.le_zero.1 within)
      cases read
      exact ⟨Nat.le_refl _, [], larger, by simp, enough, rfl⟩
  | succ steps inductionHypothesis =>
      obtain ⟨found, joined, read⟩ := bind_eq_ok.1 read
      cases found with
      | none =>
          obtain ⟨rfl, rfl⟩ := Prod.mk.inj (pure_eq_ok.1 read)
          have whole : text.takeWhile Text.isAsciiBlank ++ (skipBlanks text ++ more) = text ++ more := by
            rw [← List.append_assoc, skipBlanks, List.takeWhile_append_dropWhile]
          refine ⟨length_skipBlanks_le text, text.takeWhile Text.isAsciiBlank, larger,
            fun c => List.mem_takeWhile_imp, ?_, ?_⟩
          · rw [whole]
            exact enough
          · rw [whole]
      | some found =>
          obtain ⟨combinator, behind⟩ := found
          obtain ⟨⟨compound, middle⟩, taken, read⟩ := bind_eq_ok.1 read
          have combines := combines_of_readCombinator? joined
          have carried := carries_readCompound taken
          have shorter := combines.shorter
          have remaining := carried.shorter
          rw [List.length_append] at enough
          obtain ⟨larger, rfl⟩ := Nat.exists_eq_add_one.2 (by omega : 0 < larger)
          obtain ⟨final, reaches⟩ := @inductionHypothesis middle (complex.extend combinator compound)
            larger read (by omega) (by rw [List.length_append]; omega)
          refine ⟨by omega, ?_⟩
          have next : readChain (larger + 1) complex (text ++ more) =
              readChain larger (complex.extend combinator compound) (middle ++ more) := by
            rw [readChain, (combines.append more).read]
            change (readCompound (behind ++ more) >>= _) = _
            rw [carried.carries more (separated_before final ends)]
            rfl
          rw [next]
          exact reaches

/-- When more text follows, a selector is read as before, up to the blanks at its end. -/
theorem reaches_readComplex (read : readComplex text = .ok (complex, rest))
    (ends : rest = [] → Separated more) : rest.length ≤ text.length ∧
      Reaches (readComplex (text ++ more)) complex (rest ++ more) := by
  obtain ⟨⟨subject, behind⟩, begun, read⟩ := bind_eq_ok.1 read
  have carried := carries_readCompound begun
  have taken := carried.shorter
  have skipped := length_skipBlanks_le text
  obtain ⟨shorter, reaches⟩ := reaches_readChain read (Nat.le_succ _)
    (Nat.le_succ (behind ++ more).length) ends
  have full : skipBlanks text ≠ [] := by
    obtain ⟨c, tail, shape, -⟩ := exists_of_readCompound begun
    simp [shape]
  refine ⟨by omega, ?_⟩
  have next : readComplex (text ++ more) =
      readChain ((behind ++ more).length + 1) { subject } (behind ++ more) := by
    rw [readComplex, skipBlanks_more full, carried.carries more (separated_before shorter ends)]
    rfl
  rw [next]
  exact reaches

/-- What a chain begins with stays at its end. -/
theorem readChain_onto (links : List (Combinator × Compound))
    (read : readChain steps complex text = .ok (last, rest)) :
    readChain steps (complex.onto links) text = .ok (last.onto links, rest) := by
  induction steps generalizing complex text with
  | zero =>
      cases read
      rfl
  | succ steps inductionHypothesis =>
      obtain ⟨found, joined, read⟩ := bind_eq_ok.1 read
      rw [readChain, joined]
      cases found with
      | none =>
          obtain ⟨rfl, rfl⟩ := Prod.mk.inj (pure_eq_ok.1 read)
          rfl
      | some found =>
          obtain ⟨⟨compound, middle⟩, taken, read⟩ := bind_eq_ok.1 read
          change (readCompound found.2 >>= _) = _
          rw [taken]
          exact inductionHypothesis read

/-- A combinator between the texts of two selectors joins them: the second one leads to the first. -/
theorem readComplex_join {first second : Complex} {one two : List Char}
    (left : readComplex one = .ok (first, [])) (right : readComplex two = .ok (second, [])) :
    readComplex (one ++ (combinator.text ++ two)) =
      .ok (second.onto ((combinator, first.subject) :: first.chain), []) := by
  obtain ⟨-, reaches⟩ := reaches_readComplex left fun _ => @Combinator.separated_text two combinator
  obtain ⟨⟨subject, behind⟩, begun, read⟩ := bind_eq_ok.1 right
  obtain ⟨c, tail, begins, -⟩ := exists_of_readCompound begun
  rw [begins] at begun
  obtain ⟨steps, enough, joined⟩ := reaches.combine begins begun
  obtain ⟨-, further⟩ := @reaches_readChain behind [] [] { subject } second (behind.length + 1) steps
    read (Nat.le_succ _) (by simpa using enough) fun _ => by simp [Separated]
  have finished := further.stop (.inl rfl)
  rw [List.append_nil] at finished
  rw [joined]
  exact readChain_onto ((combinator, first.subject) :: first.chain) finished

end Chains

section Lists

variable {list firsts seconds : List Complex} {larger : Nat}

/-- More steps than there are characters make no difference. -/
theorem readComplexes_congr (enough : text.length < steps) (more : text.length < larger) :
    readComplexes steps text = readComplexes larger text := by
  induction steps generalizing text larger with
  | zero => exact absurd enough (Nat.not_lt_zero _)
  | succ steps inductionHypothesis =>
      obtain ⟨larger, rfl⟩ := Nat.exists_eq_add_one.2 (Nat.zero_lt_of_lt more)
      rw [readComplexes, readComplexes]
      cases read : readComplex text with
      | error fault => rfl
      | ok found =>
          obtain ⟨complex, rest⟩ := found
          have shorter := (@reaches_readComplex text rest [] complex read (by simp [Separated])).1
          dsimp only [bind, Except.bind]
          split
          · rfl
          · rw [List.length_cons] at shorter
            rw [@inductionHypothesis _ larger (by omega) (by omega)]
          · rfl

theorem readComplexes_ne_nil (read : readComplexes steps text = .ok list) : list ≠ [] := by
  rintro rfl
  cases steps with
  | zero => cases read
  | succ steps =>
      obtain ⟨⟨complex, rest⟩, -, read⟩ := bind_eq_ok.1 read
      dsimp only at read
      split at read
      · cases read
      · obtain ⟨others, -, read⟩ := bind_eq_ok.1 read
        cases read
      · cases read

/-- Behind a comma, the list goes on with what the rest is read as. -/
theorem readComplexes_append {one two : List Char} (read : readComplexes steps one = .ok firsts)
    (enough : (one ++ ',' :: two).length < larger) : readComplexes larger (one ++ ',' :: two) =
      (readComplexes (two.length + 1) two).map (firsts ++ ·) := by
  have separated : Separated (',' :: two) := by
    intro c first
    cases first
    rfl
  induction steps generalizing one firsts larger with
  | zero => cases read
  | succ steps inductionHypothesis =>
      obtain ⟨larger, rfl⟩ := Nat.exists_eq_add_one.2 (Nat.zero_lt_of_lt enough)
      rw [List.length_append, List.length_cons] at enough
      obtain ⟨⟨complex, rest⟩, begun, read⟩ := bind_eq_ok.1 read
      obtain ⟨shorter, reaches⟩ := reaches_readComplex begun fun _ => separated
      rw [readComplexes]
      dsimp only at read
      split at read
      · obtain rfl := pure_eq_ok.1 read
        rw [reaches.stop (.inr ⟨_, rfl⟩)]
        change (readComplexes larger two >>= _) = _
        rw [@readComplexes_congr two larger (two.length + 1) (by omega) (Nat.lt_succ_self _)]
        cases readComplexes (two.length + 1) two <;> rfl
      · rename_i behind
        rw [List.length_cons] at shorter
        obtain ⟨others, further, read⟩ := bind_eq_ok.1 read
        obtain rfl := pure_eq_ok.1 read
        rw [reaches.stop (.inr ⟨_, rfl⟩)]
        change (readComplexes larger (behind ++ ',' :: two) >>= _) = _
        rw [inductionHypothesis further (by rw [List.length_append, List.length_cons]; omega)]
        cases readComplexes (two.length + 1) two <;> rfl
      · cases read

/-- A list of one selector is the text of this selector. -/
theorem readComplexes_eq_singleton_iff : readComplexes (steps + 1) text = .ok [complex] ↔
    readComplex text = .ok (complex, []) := by
  constructor
  · intro read
    obtain ⟨⟨first, rest⟩, begun, read⟩ := bind_eq_ok.1 read
    dsimp only at read
    split at read
    · obtain rfl := List.singleton_inj.1 (pure_eq_ok.1 read)
      exact begun
    · obtain ⟨others, further, read⟩ := bind_eq_ok.1 read
      obtain ⟨-, rfl⟩ := List.cons.inj (pure_eq_ok.1 read)
      exact absurd rfl (readComplexes_ne_nil further)
    · cases read
  · intro read
    rw [readComplexes, read]
    rfl

end Lists

section Texts

variable {one two : String} {list firsts seconds : List Complex} {error : Error}

/-- A text that is not blank is read as what its characters are read as. -/
theorem parse_of_solid (solid : Text.trim one.toList ≠ []) : parse one =
    (readComplexes (one.toList.length + 1) one.toList).mapError (Fault.toError one.toList) := by
  have full : (Text.trim one.toList).isEmpty = false := List.isEmpty_eq_false_iff.2 solid
  simp only [parse, full, Bool.false_eq_true, if_false]

/-- A text that is read, or refused for another reason than being blank, is not blank. -/
theorem solid_of_parse (other : parse one ≠ .error .empty) : Text.trim one.toList ≠ [] := by
  intro empty
  apply other
  rw [parse, empty]
  rfl

theorem parse_eq_ok : parse one = .ok list ↔ Text.trim one.toList ≠ [] ∧
    readComplexes (one.toList.length + 1) one.toList = .ok list := by
  constructor
  · intro read
    have solid : Text.trim one.toList ≠ [] := solid_of_parse (by rw [read]; exact fun same => nomatch same)
    rw [parse_of_solid solid] at read
    refine ⟨solid, ?_⟩
    cases found : readComplexes (one.toList.length + 1) one.toList with
    | error fault =>
        rw [found] at read
        cases read
    | ok others =>
        rw [found] at read
        cases read
        rfl
  · rintro ⟨solid, read⟩
    rw [parse_of_solid solid, read]
    rfl

/-- What follows a text that is not blank does not make it blank. -/
theorem solid_append {front : List Char} (solid : Text.trim front ≠ []) (more : List Char) :
    Text.trim (front ++ more) ≠ [] := by
  intro empty
  apply solid
  rw [Text.trim_eq_nil_iff] at empty ⊢
  exact fun c member => empty c (List.mem_append_left _ member)

/-- Behind a text that is read and a comma, what is read of a second text decides. -/
theorem parse_comma (read : parse one = .ok firsts) : parse (one ++ "," ++ two) =
    ((readComplexes (two.toList.length + 1) two.toList).map (firsts ++ ·)).mapError
      (Fault.toError (one ++ "," ++ two).toList) := by
  obtain ⟨solid, begun⟩ := parse_eq_ok.1 read
  have shape : (one ++ "," ++ two).toList = one.toList ++ ',' :: two.toList := by simp
  rw [parse_of_solid (by rw [shape]; exact solid_append solid _), ← readComplexes_append begun
    (Nat.lt_succ_self _), shape]

/-- A combinator between the texts of two selectors joins them. -/
theorem parse_combinator {first second : Complex} (left : parse one = .ok [first])
    (right : parse two = .ok [second]) (combinator : Combinator) :
    parse (one ++ String.ofList combinator.text ++ two) =
      .ok [second.onto ((combinator, first.subject) :: first.chain)] := by
  obtain ⟨solid, begun⟩ := parse_eq_ok.1 left
  obtain ⟨-, further⟩ := parse_eq_ok.1 right
  have shape : (one ++ String.ofList combinator.text ++ two).toList =
      one.toList ++ (combinator.text ++ two.toList) := by simp
  apply parse_eq_ok.2
  rw [shape]
  exact ⟨solid_append solid _, readComplexes_eq_singleton_iff.2 (readComplex_join
    (readComplexes_eq_singleton_iff.1 begun) (readComplexes_eq_singleton_iff.1 further))⟩

/-- The strict reader is compositional. Two lists are joined by a comma; a fault of a second text that is not
blank is a fault behind the comma too; and two selectors are joined by a combinator to one, whose chain leads
from the subject of the second along its chain to the first. -/
theorem parse_composed (one two : String) :
    (∀ firsts seconds, parse one = .ok firsts → parse two = .ok seconds →
      parse (one ++ "," ++ two) = .ok (firsts ++ seconds)) ∧
    (∀ firsts error, parse one = .ok firsts → parse two = .error error → error ≠ .empty →
      ∃ fault, parse (one ++ "," ++ two) = .error fault) ∧
    (∀ first second combinator, parse one = .ok [first] → parse two = .ok [second] →
      parse (one ++ String.ofList combinator.text ++ two) =
        .ok [⟨second.subject, second.chain ++ [(combinator, first.subject)] ++ first.chain⟩]) := by
  refine ⟨fun firsts seconds left right => ?_, fun firsts error left right other => ?_,
    fun first second combinator left right => ?_⟩
  · rw [parse_comma left, (parse_eq_ok.1 right).2]
    rfl
  · have solid : Text.trim two.toList ≠ [] :=
      solid_of_parse (by rw [right]; exact fun same => other (Except.error.inj same))
    rw [parse_of_solid solid] at right
    rw [parse_comma left]
    cases found : readComplexes (two.toList.length + 1) two.toList with
    | error fault => exact ⟨_, rfl⟩
    | ok seconds =>
        rw [found] at right
        cases right
  · rw [parse_combinator left right, Complex.onto, List.append_assoc]
    rfl

/-- A text is that of one selector when one row of combinators is read from it. -/
theorem exists_parse_eq_singleton {combinators : List Combinator}
    (joined : (parse one).toOption.map (List.map fun complex => complex.chain.map Prod.fst) =
      some [combinators]) :
    ∃ complex, parse one = .ok [complex] ∧ complex.chain.map Prod.fst = combinators := by
  cases read : parse one with
  | error fault =>
      rw [read] at joined
      cases joined
  | ok list =>
      rw [read] at joined
      obtain ⟨complex, rfl, shape⟩ := List.map_eq_singleton_iff.1 (Option.some.inj joined)
      exact ⟨complex, rfl, shape⟩

/-- The first text holds a comma, a blank, a greater-than sign and a bracket that end nothing, and both have
blanks around them. -/
theorem parse_composed_of_nested : ∃ one two first second,
    one = "ul:not(.a, [title=\"x]> y\"]) > li:nth-child( 2n + 1 ) " ∧ two = " p ~ a[href^='#'] " ∧
    parse one = .ok [first] ∧ parse two = .ok [second] ∧
    first.chain.map Prod.fst = [.child] ∧ second.chain.map Prod.fst = [.laterSibling] ∧
    parse (one ++ "," ++ two) = .ok ([first] ++ [second]) ∧
    (∃ fault, parse (one ++ "," ++ "a >") = .error fault) ∧
    parse (one ++ String.ofList Combinator.nextSibling.text ++ two) =
      .ok [⟨second.subject, second.chain ++ [(.nextSibling, first.subject)] ++ first.chain⟩] := by
  obtain ⟨first, left, front⟩ := @exists_parse_eq_singleton
    "ul:not(.a, [title=\"x]> y\"]) > li:nth-child( 2n + 1 ) " [.child] (by decide +kernel)
  obtain ⟨second, right, back⟩ := @exists_parse_eq_singleton " p ~ a[href^='#'] " [.laterSibling]
    (by decide +kernel)
  have fault : parse "a >" = .error .danglingCombinator := by rfl
  exact ⟨_, _, first, second, rfl, rfl, left, right, front, back,
    (parse_composed _ _).1 _ _ left right, (parse_composed _ _).2.1 _ _ left fault (by decide),
    (parse_composed _ _).2.2 _ _ _ left right⟩

end Texts

end ElementQuery.Selector

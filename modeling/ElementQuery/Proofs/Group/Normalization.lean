/-
This file shows that the normalized text of a group is read as the group itself: words that are joined by spaces
are trimmed, cut at commas and cut into words as they stand.
-/

import ElementQuery.Proofs.Group.Alternatives

namespace ElementQuery.Group

/-- Every character of a text is allowed at the nesting at which it is met. -/
def throughout (allowed : Nesting → Char → Bool) : Nesting → List Char → Bool
  | _, [] => true
  | nesting, c :: rest => allowed nesting c && throughout allowed (nesting.advance true c) rest

/-- Quotes stand inside of brackets. -/
def quoteInside (nesting : Nesting) (c : Char) : Bool := !Nesting.isQuote c || nesting.depth != 0

/-- Inside of a group, no comma stands outside of brackets and quotes. -/
def inGroup (nesting : Nesting) (c : Char) : Bool :=
  quoteInside nesting c && !(nesting.isTop && c == ',')

/-- Inside of a word, no blank and no combinator stands there either. -/
def inWord (nesting : Nesting) (c : Char) : Bool :=
  inGroup nesting c && !(nesting.isTop && (Text.isBlank c || (Combinator.ofChar? c).isSome))

/-- The nesting behind a text. -/
def Nesting.after (nesting : Nesting) (text : List Char) : Nesting :=
  text.foldl (Nesting.advance true) nesting

/-- What is open is a quote. -/
def Nesting.Sound (nesting : Nesting) : Prop := ∀ c ∈ nesting.quote, Nesting.isQuote c = true

section Scanning

variable {allowed other : Nesting → Char → Bool} {nesting : Nesting} {front back text rest current : List Char}
  {c : Char} {quotes : Bool}

theorem Nesting.after_append :
    nesting.after (front ++ back) = (nesting.after front).after back :=
  List.foldl_append

theorem throughout_append : throughout allowed nesting (front ++ back) =
    (throughout allowed nesting front && throughout allowed (nesting.after front) back) := by
  induction front generalizing nesting with
  | nil => rfl
  | cons c front inductionHypothesis =>
      rw [List.cons_append, throughout, throughout, inductionHypothesis, Bool.and_assoc]
      rfl

theorem throughout_concat : throughout allowed nesting (front ++ [c]) =
    (throughout allowed nesting front && allowed (nesting.after front) c) := by
  rw [throughout_append, throughout, throughout, Bool.and_true]

theorem throughout_imp (weaker : ∀ nesting c, allowed nesting c = true → other nesting c = true)
    (met : throughout allowed nesting text = true) : throughout other nesting text = true := by
  induction text generalizing nesting with
  | nil => rfl
  | cons c text inductionHypothesis =>
      rw [throughout, Bool.and_eq_true] at met ⊢
      exact ⟨weaker nesting c met.1, inductionHypothesis met.2⟩

theorem quoteInside_of_inGroup (nesting : Nesting) (c : Char) (inside : inGroup nesting c = true) :
    quoteInside nesting c = true :=
  (Bool.and_eq_true_iff.1 inside).1

theorem inGroup_of_inWord (nesting : Nesting) (c : Char) (inside : inWord nesting c = true) :
    inGroup nesting c = true :=
  (Bool.and_eq_true_iff.1 inside).1

theorem apart_of_inWord (inside : inWord nesting c = true) (top : nesting.isTop = true) :
    Text.isBlank c = false ∧ Combinator.ofChar? c = none := by
  simpa [inWord, top] using (Bool.and_eq_true_iff.1 inside).2

/-- Where quotes stand inside of brackets, it does not matter whether they count outside. -/
theorem advance_of_quoteInside (inside : quoteInside nesting c = true) :
    nesting.advance (nesting.depth != 0) c = nesting.advance true c := by
  unfold Nesting.advance
  split
  · rfl
  · split
    · rename_i quote
      have deep : (nesting.depth != 0) = true := by simpa [quoteInside, quote] using inside
      rw [deep]
    · rfl

namespace Nesting.Sound

theorem start : Nesting.Sound {} := by
  intro c member
  cases member

theorem advance (sound : nesting.Sound) : (nesting.advance quotes c).Sound := by
  intro d member
  unfold Nesting.advance at member
  split at member
  · split at member
    · cases member
    · exact sound d member
  · split at member
    · rename_i quote
      split at member
      · obtain rfl := Option.some.inj member
        exact quote
      · exact sound d member
    · split at member
      · exact sound d member
      · split at member
        · exact sound d member
        · exact sound d member

theorem after (sound : nesting.Sound) : (nesting.after text).Sound := by
  induction text generalizing nesting with
  | nil => exact sound
  | cons c text inductionHypothesis => exact inductionHypothesis sound.advance

/-- A plain character keeps the nesting. -/
theorem advance_plain (sound : nesting.Sound) (plain : Common.isPlain c = true) :
    nesting.advance quotes c = nesting := by
  simp only [Common.isPlain, Bool.not_eq_true', Bool.or_eq_false_iff, beq_eq_false_iff_ne] at plain
  obtain ⟨⟨⟨⟨noQuote, noSquare⟩, noRound⟩, noSquareEnd⟩, noRoundEnd⟩ := plain
  unfold Nesting.advance
  split
  · rename_i quote known
    have different : c ≠ quote := by
      intro same
      rw [same, sound quote known] at noQuote
      cases noQuote
    rw [if_neg different]
  · simp [noQuote, noSquare, noRound, noSquareEnd, noRoundEnd]

end Nesting.Sound

end Scanning

section Pieces

variable {nesting : Nesting} {text : List Char}

/-- Where quotes stand inside of brackets, the pieces between commas are insides of groups. Every piece ends
outside of brackets, only the last one need not. -/
theorem splitAtCommas_inGroup (inside : throughout quoteInside nesting text = true) :
    ∃ first more, splitAtCommas nesting text = first :: more ∧
      (throughout inGroup nesting first = true ∧
        ((nesting.after first).isTop = true ∨ first = text)) ∧
      ∀ piece ∈ more, throughout inGroup {} piece = true ∧
        ((({} : Nesting).after piece).isTop = true ∨ piece <:+ text) := by
  induction text generalizing nesting with
  | nil => exact ⟨[], [], rfl, ⟨rfl, .inr rfl⟩, by simp⟩
  | cons c rest inductionHypothesis =>
      obtain ⟨allowed, later⟩ := Bool.and_eq_true_iff.1 inside
      obtain ⟨first, more, cut, ⟨firstInside, firstEnds⟩, others⟩ := inductionHypothesis later
      have further : ∀ {piece : List Char}, piece <:+ rest → piece <:+ c :: rest := fun behind =>
        behind.trans (List.suffix_cons c rest)
      rw [splitAtCommas]
      split
      · rename_i cuts
        obtain ⟨top, rfl⟩ : nesting.isTop = true ∧ c = ',' := by simpa using cuts
        obtain rfl := Nesting.eq_of_isTop top
        refine ⟨[], _, rfl, ⟨rfl, .inl rfl⟩, ?_⟩
        rw [show splitAtCommas {} rest = first :: more from cut]
        intro piece member
        rcases List.mem_cons.1 member with rfl | member
        · exact ⟨firstInside, firstEnds.imp_right fun whole => ⟨[','], congrArg (',' :: ·) whole⟩⟩
        · exact (others piece member).imp_right (Or.imp_right further)
      · rename_i stays
        refine ⟨c :: first, more, by rw [cut, List.modifyHead_cons], ⟨?_, ?_⟩, ?_⟩
        · have kept : inGroup nesting c = true := by
            rw [inGroup, allowed, Bool.true_and, Bool.not_eq_true']
            exact Bool.eq_false_iff.2 stays
          rw [throughout, kept, firstInside, Bool.and_self]
        · exact firstEnds.imp_right (congrArg (c :: ·))
        · intro piece member
          exact (others piece member).imp_right (Or.imp_right further)

/-- The inside of a group is not cut. -/
theorem splitAtCommas_of_inGroup (inside : throughout inGroup nesting text = true) :
    splitAtCommas nesting text = [text] := by
  induction text generalizing nesting with
  | nil => rfl
  | cons c rest inductionHypothesis =>
      obtain ⟨allowed, later⟩ := Bool.and_eq_true_iff.1 inside
      have kept : (nesting.isTop && c == ',') = false := by
        rw [← Bool.not_eq_true']
        exact (Bool.and_eq_true_iff.1 allowed).2
      rw [splitAtCommas, if_neg (Bool.eq_false_iff.1 kept), inductionHypothesis later]
      rfl

end Pieces

section Words

variable {nesting : Nesting} {word text current rest : List Char} {words : List (List Char)} {c : Char}

/-- The sign of a combinator is not blank, changes no nesting and does not cut a group. -/
theorem solid_of_ofChar? (signed : (Combinator.ofChar? c).isSome = true) :
    Text.isBlank c = false ∧ Common.isPlain c = true ∧ inGroup {} c = true := by
  unfold Combinator.ofChar? at signed
  split at signed
  · decide
  · decide
  · decide
  · cases signed

/-- The inside of a word is kept in one word. -/
theorem wordsFrom_inWord (inside : throughout inWord nesting word = true) :
    wordsFrom nesting current (word ++ rest) = wordsFrom (nesting.after word) (current ++ word) rest := by
  induction word generalizing nesting current with
  | nil => rw [List.nil_append, List.append_nil]; rfl
  | cons c word inductionHypothesis =>
      obtain ⟨allowed, later⟩ := Bool.and_eq_true_iff.1 inside
      have quoted := quoteInside_of_inGroup nesting c (inGroup_of_inWord nesting c allowed)
      rw [List.cons_append, Common.wordsFrom_cons fun top => apart_of_inWord allowed top,
        advance_of_quoteInside quoted, inductionHypothesis later, List.append_assoc]
      rfl

/-- A word that ends outside of brackets is a word of its own when a blank follows. -/
structure Ended (word : List Char) : Prop where
  solid : Text.Solid word
  inside : throughout inGroup {} word = true
  closed : ({} : Nesting).after word = {}
  alone : ∀ rest : List Char, (∀ c ∈ rest.head?, Text.isBlank c = true) →
    wordsFrom {} [] (word ++ rest) = word :: wordsFrom {} [] rest

/-- Blanks stand inside of the brackets and quotes of a word, so that neither its beginning nor its end outside
of them is blank. -/
theorem solid_of_inWord (inside : throughout inWord {} word = true) (nonempty : word ≠ [])
    (ends : (({} : Nesting).after word).isTop = true ∨ ∀ c ∈ word.getLast?, Text.isBlank c = false) :
    Text.Solid word := by
  have front : ∃ c rest, word = c :: rest ∧ Text.isBlank c = false := by
    obtain ⟨c, rest, rfl⟩ := List.exists_cons_of_ne_nil nonempty
    have first := (Bool.and_eq_true_iff.1 inside).1
    exact ⟨c, rest, rfl, (apart_of_inWord first rfl).1⟩
  obtain ⟨others, c, rfl⟩ := (List.eq_nil_or_concat' word).resolve_left nonempty
  refine ⟨front, others, c, rfl, ?_⟩
  rcases ends with closed | solid
  · rw [throughout_concat, Bool.and_eq_true] at inside
    by_contra blank
    rw [Bool.not_eq_false] at blank
    have stays : (({} : Nesting).after others).advance true c = ({} : Nesting).after others :=
      Nesting.Sound.start.after.advance_plain (Common.isPlain_of_isBlank blank)
    have top : (({} : Nesting).after others).isTop = true := by
      rw [← stays]
      rwa [Nesting.after_append] at closed
    rw [(apart_of_inWord inside.2 top).1] at blank
    cases blank
  · exact solid c (by simp)

theorem Ended.compound (inside : throughout inWord {} word = true)
    (closed : (({} : Nesting).after word).isTop = true) (nonempty : word ≠ []) : Ended word where
  solid := solid_of_inWord inside nonempty (.inl closed)
  inside := throughout_imp inGroup_of_inWord inside
  closed := Nesting.eq_of_isTop closed
  alone rest blank := by
    rw [wordsFrom_inWord inside, Nesting.eq_of_isTop closed, List.nil_append]
    cases rest with
    | nil => simp [wordsFrom, putWord, nonempty]
    | cons c rest =>
        have first := blank c rfl
        rw [Common.wordsFrom_blank first, Common.wordsFrom_blank first, putWord,
          if_neg (by simpa using nonempty)]
        rfl

theorem Ended.sign (signed : (Combinator.ofChar? c).isSome = true) : Ended [c] where
  solid := .single (solid_of_ofChar? signed).1
  inside := by rw [throughout, (solid_of_ofChar? signed).2.2]; rfl
  closed := Nesting.Sound.start.advance_plain (solid_of_ofChar? signed).2.1
  alone rest _ := by
    rw [List.singleton_append, wordsFrom, if_neg (by simp [(solid_of_ofChar? signed).1]),
      if_pos (by simp [Nesting.isTop, signed])]
    rfl

/-- The words of a group end outside of brackets, all but the last one. -/
inductive Row : List (List Char) → Prop
  | nothing : Row []
  | last {word : List Char} (solid : Text.Solid word) (inside : throughout inWord {} word = true) :
      Row [word]
  | word {word : List Char} {words : List (List Char)} (ended : Ended word) (others : Row words) :
      Row (word :: words)

theorem Row.put (inside : throughout inWord {} word = true)
    (closed : (({} : Nesting).after word).isTop = true) (others : Row words) :
    Row (putWord word words) := by
  rw [putWord]
  split
  · exact others
  · rename_i nonempty
    exact .word (.compound inside closed (by simpa using nonempty)) others

theorem Row.finish (inside : throughout inWord {} word = true)
    (ends : (({} : Nesting).after word).isTop = true ∨ ∀ c ∈ word.getLast?, Text.isBlank c = false) :
    Row (putWord word []) := by
  rw [putWord]
  split
  · exact .nothing
  · rename_i nonempty
    exact .last (solid_of_inWord inside (by simpa using nonempty) ends) inside

/-- The words of a group form a row, if the group ends outside of brackets or with a solid character. -/
theorem row_of_wordsFrom (begun : throughout inWord {} current = true)
    (reached : ({} : Nesting).after current = nesting) (inside : throughout inGroup nesting text = true)
    (ends : (nesting.after text).isTop = true ∨
      ∀ c ∈ (current ++ text).getLast?, Text.isBlank c = false) :
    Row (wordsFrom nesting current text) := by
  induction text generalizing nesting current with
  | nil =>
      rw [← reached, List.append_nil] at ends
      exact .finish begun ends
  | cons c rest inductionHypothesis =>
      obtain ⟨allowed, later⟩ := Bool.and_eq_true_iff.1 inside
      rw [List.append_cons] at ends
      have dropped : ((nesting.advance true c).after rest).isTop = true ∨
          ∀ d ∈ rest.getLast?, Text.isBlank d = false :=
        ends.imp_right fun solid d member =>
          solid d (List.mem_getLast?_append_of_mem_getLast? member)
      -- At the top a blank or a combinator ends the word that has begun, and nothing has begun behind it.
      have reset : nesting.isTop = true → Common.isPlain c = true →
          (∀ words, Row words → Row (putWord current words)) ∧ Row (wordsFrom nesting [] rest) := by
        intro top plain
        obtain rfl := Nesting.eq_of_isTop top
        rw [Nesting.Sound.start.advance_plain plain] at later dropped
        rw [← reached] at top
        exact ⟨fun words others => .put begun top others, inductionHypothesis rfl rfl later dropped⟩
      rw [wordsFrom]
      split
      · rename_i blank
        obtain ⟨top, blank⟩ := Bool.and_eq_true_iff.1 blank
        obtain ⟨put, others⟩ := reset top (Common.isPlain_of_isBlank blank)
        exact put _ others
      · rename_i noBlank
        split
        · rename_i sign
          obtain ⟨top, signed⟩ := Bool.and_eq_true_iff.1 sign
          obtain ⟨put, others⟩ := reset top (solid_of_ofChar? signed).2.1
          exact put _ (.word (.sign signed) others)
        · rename_i noSign
          have kept : inWord nesting c = true := by
            rw [inWord, allowed, Bool.and_or_distrib_left, Bool.eq_false_iff.2 noBlank,
              Bool.eq_false_iff.2 noSign]
            rfl
          rw [advance_of_quoteInside (quoteInside_of_inGroup nesting c allowed)]
          refine inductionHypothesis ?_ ?_ later ends
          · rw [throughout_concat, begun, reached, kept]
            rfl
          · rw [Nesting.after_append, reached]
            rfl

end Words

section Rows

variable {words : List (List Char)}

namespace Row

theorem solid (row : Row words) (nonempty : words ≠ []) :
    Text.Solid ([' '].intercalate words) := by
  induction row with
  | nothing => exact absurd rfl nonempty
  | last solid inside => rwa [List.intercalate_singleton]
  | @word word words ended others inductionHypothesis =>
      by_cases alone : words = []
      · rw [alone, List.intercalate_singleton]
        exact ended.solid
      · rw [List.intercalate_cons_of_ne_nil alone, List.append_assoc]
        exact ended.solid.around (inductionHypothesis alone) [' ']

/-- Words that are joined by spaces are the inside of a group. -/
theorem inside (row : Row words) : throughout inGroup {} ([' '].intercalate words) = true := by
  induction row with
  | nothing => rfl
  | last solid inside =>
      rw [List.intercalate_singleton]
      exact throughout_imp inGroup_of_inWord inside
  | @word word words ended others inductionHypothesis =>
      by_cases alone : words = []
      · rw [alone, List.intercalate_singleton]
        exact ended.inside
      · rw [List.intercalate_cons_of_ne_nil alone, List.append_assoc, throughout_append, ended.inside,
          ended.closed]
        exact inductionHypothesis

/-- Words that are joined by spaces are cut into themselves. -/
theorem groupWords_eq (row : Row words) : groupWords ([' '].intercalate words) = words := by
  induction row with
  | nothing => rfl
  | @last word solid inside =>
      have whole := @wordsFrom_inWord {} word [] [] inside
      rw [List.append_nil, List.nil_append, wordsFrom, putWord,
        if_neg (by simpa using solid.ne_nil)] at whole
      rw [List.intercalate_singleton]
      exact whole
  | @word word words ended others inductionHypothesis =>
      rw [groupWords] at inductionHypothesis ⊢
      by_cases alone : words = []
      · have single := ended.alone [] (by simp)
        rw [List.append_nil] at single
        rw [alone, List.intercalate_singleton]
        exact single
      · rw [List.intercalate_cons_of_ne_nil alone, List.append_assoc, List.singleton_append,
          ended.alone _ (by simp; decide), Common.wordsFrom_blank (by decide), inductionHypothesis]
        rfl

end Row

theorem toList_normalized (words : List (List Char)) :
    (normalized words).toList = [' '].intercalate words := by
  simp [normalized, String.toList_intercalate, Function.comp_def]

/-- The normalized text of a row of words is read as the group of these words. -/
theorem parse_normalized (row : Row words) (nonempty : normalized words ≠ "") :
    (parse (normalized words)).value = [(ofWords words).value] := by
  have some : words ≠ [] := by
    rintro rfl
    exact nonempty rfl
  rw [parse, toList_normalized, (row.solid some).trim_eq, splitAtCommas_of_inGroup row.inside,
    readGroups, row.groupWords_eq, if_neg (by simpa using nonempty)]
  rfl

end Rows

section Queries

variable {known : List String} {texts : List (List Char)} {query : String} {group : Group}

/-- Every group is read from the words of a text, and its source is not empty. -/
theorem exists_text_of_mem_readGroups (member : group ∈ (readGroups known texts).value) :
    ∃ text ∈ texts, group = (ofWords (groupWords text)).value ∧ group.source ≠ "" := by
  induction texts generalizing known with
  | nil => exact absurd member List.not_mem_nil
  | cons text texts inductionHypothesis =>
      rw [readGroups] at member
      split at member
      · obtain ⟨other, found, facts⟩ := inductionHypothesis member
        exact ⟨other, List.mem_cons_of_mem _ found, facts⟩
      · rename_i new
        rcases List.mem_cons.1 member with rfl | later
        · refine ⟨text, List.mem_cons_self, rfl, ?_⟩
          rw [source_ofWords]
          intro empty
          simp [empty] at new
        · obtain ⟨other, found, facts⟩ := inductionHypothesis later
          exact ⟨other, List.mem_cons_of_mem _ found, facts⟩

/-- The words of every piece of a trimmed query form a row. -/
theorem row_of_mem_splitAtCommas {text piece : List Char}
    (inside : throughout quoteInside {} (Text.trim text) = true)
    (member : piece ∈ splitAtCommas {} (Text.trim text)) : Row (groupWords piece) := by
  obtain ⟨first, more, cut, ⟨firstInside, firstEnds⟩, others⟩ := splitAtCommas_inGroup inside
  have facts : throughout inGroup {} piece = true ∧
      ((({} : Nesting).after piece).isTop = true ∨ piece <:+ Text.trim text) := by
    rw [cut] at member
    rcases List.mem_cons.1 member with rfl | later
    · exact ⟨firstInside, firstEnds.imp_right fun whole => ⟨[], whole⟩⟩
    · exact others piece later
  refine row_of_wordsFrom rfl rfl facts.1 (facts.2.imp_right fun behind => ?_)
  obtain ⟨front, shape⟩ := behind
  intro c last
  have whole : c ∈ (Text.trim text).getLast? := by
    rw [← shape]
    exact List.mem_getLast?_append_of_mem_getLast? last
  exact Text.isBlank_of_mem_getLast?_trim whole

end Queries

/-- The source of a group is normal: it is read as the same group alone, with the same source, steps and
trailing combinator, if every quote of the query stands inside of brackets. -/
theorem parse_source (query : String) (inside : throughout quoteInside {} (Text.trim query.toList) = true)
    (group : Group) (member : group ∈ (parse query).value) : (parse group.source).value = [group] := by
  obtain ⟨text, found, rfl, nonempty⟩ := exists_text_of_mem_readGroups member
  exact parse_normalized (row_of_mem_splitAtCommas inside found) nonempty

/-- A comma and blanks stay behind a quote that is not closed, but for the blanks at the end. -/
theorem parse_source_of_open_quote :
    throughout quoteInside {} (Text.trim " a , e>f[g='h ,  i  ".toList) = true ∧
    (parse " a , e>f[g='h ,  i  ").value.map Group.source = ["a", "e > f[g='h ,  i"] ∧
    (parse "e > f[g='h ,  i").value = [
      ⟨"e > f[g='h ,  i", [⟨.descendant, { tag := "e" }, []⟩, ⟨.child, { tag := "f" }, []⟩], none⟩] :=
  ⟨by decide +kernel, by decide +kernel,
    parse_source " a , e>f[g='h ,  i  " (by decide +kernel)
      ⟨"e > f[g='h ,  i", [⟨.descendant, { tag := "e" }, []⟩, ⟨.child, { tag := "f" }, []⟩], none⟩
      (by decide +kernel)⟩

end ElementQuery.Group
